import Mathlib.Logic.Function.Basic
import Mathlib.Tactic.SplitIfs
import Shebang.Text.Utf8

/-!
UTF-8 reads back what it writes and nothing else. The bytes of one character are given by the four
forms of the grammar; decoding takes one form after another, and each form is what the character is
written as.
-/

namespace Shebang.Utf8

/-- The bytes of a character by their number, with the character that they stand for. -/
inductive Form : Bytes → Char → Prop where
  | one {a : UInt8} : a.toNat < 0x80 → Form [a] (Char.ofNat a.toNat)
  | two {a b : UInt8} : 0xC2 ≤ a.toNat → a.toNat < 0xE0 → isTail b → Form [a, b] (char2 a b)
  | three {a b c : UInt8} : 0xE0 ≤ a.toNat → a.toNat < 0xF0 → isSecond a b → isTail c →
      Form [a, b, c] (char3 a b c)
  | four {a b c d : UInt8} : 0xF0 ≤ a.toNat → a.toNat ≤ 0xF4 → isSecond a b → isTail c →
      isTail d → Form [a, b, c, d] (char4 a b c d)

section Bytes

variable {a b : UInt8}

theorem isTail_iff : isTail b ↔ 0x80 ≤ b.toNat ∧ b.toNat ≤ 0xBF := by
  simp [isTail, UInt8.le_iff_toNat_le]

/-- The second byte is a tail, and narrower behind the first bytes of overlong forms, of surrogates
and of numbers above the last code point. -/
theorem isSecond_iff : isSecond a b ↔ 0x80 ≤ b.toNat ∧ b.toNat ≤ 0xBF ∧
    (a.toNat = 0xE0 → 0xA0 ≤ b.toNat) ∧ (a.toNat = 0xF0 → 0x90 ≤ b.toNat) ∧
    (a.toNat = 0xED → b.toNat ≤ 0x9F) ∧ (a.toNat = 0xF4 → b.toNat ≤ 0x8F) := by
  simp only [isSecond, Bool.and_eq_true, decide_eq_true_eq, ← UInt8.toNat_inj]
  split_ifs <;> simp_all [UInt8.le_iff_toNat_le] <;> omega

theorem toNat_toUInt8 {n : Nat} (h : n < 0x100) : n.toUInt8.toNat = n :=
  Nat.mod_eq_of_lt h

theorem toUInt8_toNat (b : UInt8) : b.toNat.toUInt8 = b := UInt8.ofNat_toNat

theorem toNat_ofNat {n : Nat} (h : n.isValidChar) : (Char.ofNat n).toNat = n := by
  rw [Char.ofNat, dif_pos h]
  rfl

end Bytes

section Encoding

theorem form_eq {seq : Bytes} {x : Char} (h : Form seq x) : seq = encodeChar x := by
  cases h with
  | @one a ha =>
    have hx : (Char.ofNat a.toNat).toNat = a.toNat := toNat_ofNat (Or.inl (by omega))
    rw [encodeChar, hx, if_pos ha, toUInt8_toNat]
  | @two a b ha ha' hb =>
    rw [isTail_iff] at hb
    have hx : (char2 a b).toNat = (a.toNat - 0xC0) * 0x40 + (b.toNat - 0x80) :=
      toNat_ofNat (Or.inl (by omega))
    have h1 : 0xC0 + (char2 a b).toNat / 0x40 = a.toNat := by omega
    have h2 : 0x80 + (char2 a b).toNat % 0x40 = b.toNat := by omega
    rw [encodeChar, if_neg (by omega), if_pos (by omega), h1, h2, toUInt8_toNat, toUInt8_toNat]
  | @three a b c ha ha' hb hc =>
    rw [isSecond_iff] at hb
    rw [isTail_iff] at hc
    have hx : (char3 a b c).toNat =
        (a.toNat - 0xE0) * 0x1000 + (b.toNat - 0x80) * 0x40 + (c.toNat - 0x80) :=
      toNat_ofNat (by unfold Nat.isValidChar; omega)
    have h1 : 0xE0 + (char3 a b c).toNat / 0x1000 = a.toNat := by omega
    have h2 : 0x80 + (char3 a b c).toNat / 0x40 % 0x40 = b.toNat := by omega
    have h3 : 0x80 + (char3 a b c).toNat % 0x40 = c.toNat := by omega
    rw [encodeChar, if_neg (by omega), if_neg (by omega), if_pos (by omega), h1, h2, h3,
      toUInt8_toNat, toUInt8_toNat, toUInt8_toNat]
  | @four a b c d ha ha' hb hc hd =>
    rw [isSecond_iff] at hb
    rw [isTail_iff] at hc hd
    have hx : (char4 a b c d).toNat = (a.toNat - 0xF0) * 0x40000 + (b.toNat - 0x80) * 0x1000 +
        (c.toNat - 0x80) * 0x40 + (d.toNat - 0x80) :=
      toNat_ofNat (Or.inr (by omega))
    have h1 : 0xF0 + (char4 a b c d).toNat / 0x40000 = a.toNat := by omega
    have h2 : 0x80 + (char4 a b c d).toNat / 0x1000 % 0x40 = b.toNat := by omega
    have h3 : 0x80 + (char4 a b c d).toNat / 0x40 % 0x40 = c.toNat := by omega
    have h4 : 0x80 + (char4 a b c d).toNat % 0x40 = d.toNat := by omega
    rw [encodeChar, if_neg (by omega), if_neg (by omega), if_neg (by omega), h1, h2, h3, h4,
      toUInt8_toNat, toUInt8_toNat, toUInt8_toNat, toUInt8_toNat]

theorem ofNat_eq {n : Nat} {x : Char} (h : n = x.toNat) : Char.ofNat n = x := by
  rw [h, Char.ofNat_toNat]

theorem exists_byte {n : Nat} (h : n < 0x100) : ∃ b : UInt8, n.toUInt8 = b ∧ b.toNat = n :=
  ⟨n.toUInt8, rfl, toNat_toUInt8 h⟩

theorem form_encodeChar (x : Char) : Form (encodeChar x) x := by
  have hv : x.toNat < 0xD800 ∨ 0xDFFF < x.toNat ∧ x.toNat < 0x110000 := x.valid
  rw [encodeChar]
  generalize hn : x.toNat = n at hv
  by_cases h1 : n < 0x80
  · obtain ⟨a, ea, ha⟩ := exists_byte (show n < 0x100 by omega)
    have hx : Char.ofNat a.toNat = x := ofNat_eq (by omega)
    rw [if_pos h1, ea, ← hx]
    exact Form.one (by omega)
  · by_cases h2 : n < 0x800
    · obtain ⟨a, ea, ha⟩ := exists_byte (show 0xC0 + n / 0x40 < 0x100 by omega)
      obtain ⟨b, eb, hb⟩ := exists_byte (show 0x80 + n % 0x40 < 0x100 by omega)
      have hx : char2 a b = x := ofNat_eq (by omega)
      rw [if_neg h1, if_pos h2, ea, eb, ← hx]
      exact Form.two (by omega) (by omega) (isTail_iff.mpr (by omega))
    · by_cases h3 : n < 0x10000
      · obtain ⟨a, ea, ha⟩ := exists_byte (show 0xE0 + n / 0x1000 < 0x100 by omega)
        obtain ⟨b, eb, hb⟩ := exists_byte (show 0x80 + n / 0x40 % 0x40 < 0x100 by omega)
        obtain ⟨c, ec, hc⟩ := exists_byte (show 0x80 + n % 0x40 < 0x100 by omega)
        have hx : char3 a b c = x := ofNat_eq (by omega)
        rw [if_neg h1, if_neg h2, if_pos h3, ea, eb, ec, ← hx]
        exact Form.three (by omega) (by omega) (isSecond_iff.mpr (by omega))
          (isTail_iff.mpr (by omega))
      · obtain ⟨a, ea, ha⟩ := exists_byte (show 0xF0 + n / 0x40000 < 0x100 by omega)
        obtain ⟨b, eb, hb⟩ := exists_byte (show 0x80 + n / 0x1000 % 0x40 < 0x100 by omega)
        obtain ⟨c, ec, hc⟩ := exists_byte (show 0x80 + n / 0x40 % 0x40 < 0x100 by omega)
        obtain ⟨d, ed, hd⟩ := exists_byte (show 0x80 + n % 0x40 < 0x100 by omega)
        have hx : char4 a b c d = x := ofNat_eq (by omega)
        rw [if_neg h1, if_neg h2, if_neg h3, ea, eb, ec, ed, ← hx]
        exact Form.four (by omega) (by omega) (isSecond_iff.mpr (by omega))
          (isTail_iff.mpr (by omega)) (isTail_iff.mpr (by omega))

end Encoding

section Decoding

variable {seq bytes rest : Bytes} {x : Char} {s : Text}

theorem decodeFrom_form (h : Form seq x) (pos : Nat) (rest : Bytes) :
    decodeFrom pos (seq ++ rest) = (x :: ·) <$> decodeFrom (pos + seq.length) rest := by
  cases h with
  | @one a ha =>
    have h1 : a < 0x80 := UInt8.lt_iff_toNat_lt.mpr ha
    rw [List.singleton_append, decodeFrom.eq_def]
    simp [h1]
  | @two a b ha ha' hb =>
    have h1 : ¬ a < 0x80 := by simp [UInt8.lt_iff_toNat_lt]; omega
    have h2 : ¬ a < 0xC2 := by simp [UInt8.lt_iff_toNat_lt]; omega
    have h3 : ¬ 0xF4 < a := by simp [UInt8.lt_iff_toNat_lt]; omega
    have h4 : a < 0xE0 := UInt8.lt_iff_toNat_lt.mpr ha'
    rw [decodeFrom.eq_def]
    simp [h1, h2, h3, h4, hb]
  | @three a b c ha ha' hb hc =>
    have h1 : ¬ a < 0x80 := by simp [UInt8.lt_iff_toNat_lt]; omega
    have h2 : ¬ a < 0xC2 := by simp [UInt8.lt_iff_toNat_lt]; omega
    have h3 : ¬ 0xF4 < a := by simp [UInt8.lt_iff_toNat_lt]; omega
    have h4 : ¬ a < 0xE0 := by simp [UInt8.lt_iff_toNat_lt]; omega
    have h5 : a < 0xF0 := UInt8.lt_iff_toNat_lt.mpr ha'
    rw [decodeFrom.eq_def]
    simp [h1, h2, h3, h4, h5, hb, hc]
  | @four a b c d ha ha' hb hc hd =>
    have h1 : ¬ a < 0x80 := by simp [UInt8.lt_iff_toNat_lt]; omega
    have h2 : ¬ a < 0xC2 := by simp [UInt8.lt_iff_toNat_lt]; omega
    have h3 : ¬ 0xF4 < a := by simp [UInt8.lt_iff_toNat_lt]; omega
    have h4 : ¬ a < 0xE0 := by simp [UInt8.lt_iff_toNat_lt]; omega
    have h5 : ¬ a < 0xF0 := by simp [UInt8.lt_iff_toNat_lt]; omega
    rw [decodeFrom.eq_def]
    simp [h1, h2, h3, h4, h5, hb, hc, hd]

theorem exists_form {pos : Nat} (hn : bytes ≠ []) (h : decodeFrom pos bytes = .ok s) :
    ∃ seq x rest, Form seq x ∧ bytes = seq ++ rest := by
  revert h
  fun_cases decodeFrom pos bytes with
  | case1 => exact absurd rfl hn
  | case2 a rest ha =>
    intro _
    exact ⟨[a], _, rest, Form.one (UInt8.lt_iff_toNat_lt.mp ha), rfl⟩
  | case5 a _ ha b rest ha' hb =>
    intro _
    simp [UInt8.lt_iff_toNat_lt] at ha ha'
    exact ⟨[a, b], _, rest, Form.two (by omega) (by omega) hb, rfl⟩
  | case10 a _ ha b ha' hb c rest hc hd =>
    intro _
    simp [UInt8.lt_iff_toNat_lt] at ha ha' hb hc hd
    exact ⟨[a, b, c], _, rest, Form.three (by omega) (by omega) hb hc, rfl⟩
  | case12 a _ ha b ha' hb c hc hd d rest he =>
    intro _
    simp [UInt8.lt_iff_toNat_lt] at ha ha' hb hc hd
    exact ⟨[a, b, c, d], _, rest, Form.four (by omega) (by omega) hb hc he, rfl⟩
  | _ => exact fun h => nomatch h

theorem map_eq_ok {ε α β : Type} {f : α → β} {e : Except ε α} {b : β} (h : f <$> e = .ok b) :
    ∃ a, e = .ok a ∧ f a = b := by
  cases e with
  | error e => cases h
  | ok a => exact ⟨a, rfl, Except.ok.inj h⟩

theorem encode_cons (x : Char) (s : Text) : encode (x :: s) = encodeChar x ++ encode s := rfl

theorem encode_append (s t : Text) : encode (s ++ t) = encode s ++ encode t :=
  List.flatMap_append

theorem decodeFrom_encode (pos : Nat) (s : Text) : decodeFrom pos (encode s) = .ok s := by
  induction s generalizing pos with
  | nil => rfl
  | cons x s ih =>
    rw [encode_cons, decodeFrom_form (form_encodeChar x), ih]
    rfl

theorem eq_encode_of_decodeFrom {pos : Nat} (h : decodeFrom pos bytes = .ok s) :
    bytes = encode s := by
  induction s generalizing pos bytes with
  | nil =>
    by_cases hn : bytes = []
    · exact hn
    · obtain ⟨seq, y, rest, hf, rfl⟩ := exists_form hn h
      rw [decodeFrom_form hf] at h
      obtain ⟨t, -, ht⟩ := map_eq_ok h
      cases ht
  | cons x s ih =>
    have hn : bytes ≠ [] := by
      rintro rfl
      cases h
    obtain ⟨seq, y, rest, hf, rfl⟩ := exists_form hn h
    rw [decodeFrom_form hf] at h
    obtain ⟨t, ht, hs⟩ := map_eq_ok h
    cases hs
    rw [encode_cons, ← ih ht, form_eq hf]

theorem encode_injective : Function.Injective encode := by
  intro s t h
  have hs := decodeFrom_encode 0 s
  rw [h, decodeFrom_encode] at hs
  exact (Except.ok.inj hs).symm

theorem encode_eq_nil : encode s = [] ↔ s = [] :=
  encode_injective.eq_iff' rfl

/-- Decoding succeeds exactly on encoded texts, and then gives the text back. -/
theorem decode_eq_ok_iff : decode bytes = .ok s ↔ bytes = encode s := by
  constructor
  · exact eq_encode_of_decodeFrom
  · rintro rfl
    exact decodeFrom_encode 0 s

end Decoding

section Ascii

variable {seq before after : Bytes} {b : UInt8} {x : Char} {s : Text}

theorem form_ascii (h : Form seq x) (hm : b ∈ seq) (hb : b.toNat < 0x80) :
    seq = [b] ∧ x = Char.ofNat b.toNat := by
  cases h with
  | one ha =>
    obtain rfl := List.mem_singleton.mp hm
    exact ⟨rfl, rfl⟩
  | two ha _ hb' =>
    rw [isTail_iff] at hb'
    simp only [List.mem_cons, List.not_mem_nil, or_false] at hm
    rcases hm with rfl | rfl <;> omega
  | three ha _ hb' hc =>
    rw [isSecond_iff] at hb'
    rw [isTail_iff] at hc
    simp only [List.mem_cons, List.not_mem_nil, or_false] at hm
    rcases hm with rfl | rfl | rfl <;> omega
  | four ha _ hb' hc hd =>
    rw [isSecond_iff] at hb'
    rw [isTail_iff] at hc hd
    simp only [List.mem_cons, List.not_mem_nil, or_false] at hm
    rcases hm with rfl | rfl | rfl | rfl <;> omega

/-- A byte below 0x80 cuts the encoded text where its character cuts the text. -/
theorem encode_split (hb : b.toNat < 0x80) (h : encode s = before ++ b :: after) :
    ∃ u t, s = u ++ Char.ofNat b.toNat :: t ∧ before = encode u ∧ after = encode t := by
  induction s generalizing before with
  | nil => simp [encode] at h
  | cons x s ih =>
    rw [encode_cons] at h
    rcases List.append_eq_append_iff.mp h with ⟨more, rfl, hs⟩ | ⟨more, hx, hs⟩
    · obtain ⟨u, t, rfl, rfl, ht⟩ := ih hs
      exact ⟨x :: u, t, rfl, rfl, ht⟩
    · cases more with
      | nil =>
        obtain ⟨u, t, rfl, hu, ht⟩ := ih (show encode s = [] ++ b :: after from hs.symm)
        refine ⟨x :: u, t, rfl, ?_, ht⟩
        rw [encode_cons, ← hu, hx, List.append_assoc, List.append_nil, List.append_nil]
      | cons c more =>
        obtain rfl := (List.cons.inj hs).1
        have hm : b ∈ encodeChar x := by simp [hx]
        obtain ⟨he, rfl⟩ := form_ascii (form_encodeChar x) hm hb
        have hl : (before ++ b :: more).length = 1 := by rw [← hx, he]; rfl
        rw [List.length_append, List.length_cons] at hl
        obtain rfl : before = [] := List.length_eq_zero_iff.mp (by omega)
        obtain rfl : more = [] := List.length_eq_zero_iff.mp (by omega)
        exact ⟨[], s, rfl, rfl, (List.cons.inj hs).2⟩

end Ascii

end Shebang.Utf8
