import Shebang.Proofs.Attempt
import Shebang.Proofs.Partition
import Shebang.Proofs.Utf8
import Shebang.Text.Encoding

/-!
Bytes of spans. An encoding writes one character after another, so a span of characters has a range
of bytes, and spans that tile a text have ranges that tile its bytes. The offsets of a span come
from two texts that are encoded apart: an encoding that begins every text with a mark counts it
twice.
-/

namespace Shebang

section Cut

variable {s : Span}

theorem Span.take_stop (hs : s.Valid) (source : Text) :
    source.take s.stop = source.take s.start ++ s.text source := by
  have h := Span.text_append source (Nat.zero_le s.start) hs
  simpa [Span.text] using h.symm

theorem Span.drop_start (hs : s.Valid) (source : Text) :
    source.drop s.start = s.text source ++ source.drop s.stop := by
  have hsource : source.take s.start ++ source.drop s.start =
      source.take s.start ++ (s.text source ++ source.drop s.stop) := by
    rw [← List.append_assoc, ← take_stop hs, List.take_append_drop, List.take_append_drop]
  exact List.append_cancel_left hsource

end Cut

namespace Encoding

variable {e : Encoding} {source t : Text} {bytes : Bytes} {s next : Span}

section Encode

def Has (e : Encoding) (t : Text) : Prop := ∀ c ∈ t, ∃ bytes, e.encodeChar? c = some bytes

def bytesOf (e : Encoding) (c : Char) : Bytes := (e.encodeChar? c).getD []

theorem encode_has (h : e.Has t) : e.encode t = .ok (e.byteOrderMark ++ t.flatMap e.bytesOf) := by
  rw [encode, mapM_some [] h, List.flatMap_def]
  rfl

theorem encode_eq_ok (h : e.encode t = .ok bytes) :
    e.Has t ∧ bytes = e.byteOrderMark ++ t.flatMap e.bytesOf := by
  have hhas : e.Has t := by
    rw [encode] at h
    cases hm : t.mapM e.encodeChar? with
    | none =>
      rw [hm] at h
      cases h
    | some pieces => exact fun c hc => some_of_mapM hm hc
  rw [encode_has hhas] at h
  exact ⟨hhas, (Except.ok.inj h).symm⟩

theorem Has.mono {u : Text} (h : e.Has t) (hu : u ⊆ t) : e.Has u := fun c hc => h c (hu hc)

theorem byteOrderMark_eq_nil : e.byteOrderMark = [] ↔ e ≠ .utf16 := by
  cases e <;> decide

end Encode

section Offsets

/-- Where a character begins in the encoded text. -/
def offset (e : Encoding) (source : Text) (k : Nat) : Nat :=
  (e.byteOrderMark ++ (source.take k).flatMap e.bytesOf).length

theorem offset_stop (hs : s.Valid) (e : Encoding) (source : Text) :
    e.offset source s.stop =
      e.offset source s.start + ((s.text source).flatMap e.bytesOf).length := by
  rw [offset, offset, Span.take_stop hs, List.flatMap_append, ← List.append_assoc,
    List.length_append]

/-- The offset of a character cuts the bytes where the character cuts the text. -/
theorem encode_cut (hb : e.encode source = .ok bytes) (k : Nat) :
    bytes.take (e.offset source k) = e.byteOrderMark ++ (source.take k).flatMap e.bytesOf ∧
      bytes.drop (e.offset source k) = (source.drop k).flatMap e.bytesOf := by
  have hcut : bytes = e.byteOrderMark ++ (source.take k).flatMap e.bytesOf ++
      (source.drop k).flatMap e.bytesOf := by
    rw [(encode_eq_ok hb).2, List.append_assoc, ← List.flatMap_append, List.take_append_drop]
  rw [hcut, offset]
  exact ⟨List.take_left, List.drop_left⟩

theorem offset_le (hb : e.encode source = .ok bytes) (k : Nat) :
    e.offset source k ≤ bytes.length := by
  rw [offset, ← (encode_cut hb k).1, List.length_take]
  exact Nat.min_le_right _ _

theorem offset_length (hb : e.encode source = .ok bytes) :
    e.offset source source.length = bytes.length := by
  rw [(encode_eq_ok hb).2, offset, List.take_length]

/-- The range of bytes that the characters of a span have: `before` are the mark and the characters
in front of the span, and `behind` those that follow it. -/
structure Locates (e : Encoding) (source : Text) (bytes : Bytes) (s : Span) (range : Nat × Nat) :
    Prop where
  ordered : range.1 ≤ range.2
  bounded : range.2 ≤ bytes.length
  before : bytes.take range.1 = e.byteOrderMark ++ (source.take s.start).flatMap e.bytesOf
  within : bytes.extract range.1 range.2 = (s.text source).flatMap e.bytesOf
  behind : bytes.drop range.2 = (source.drop s.stop).flatMap e.bytesOf

theorem locates_offset (hb : e.encode source = .ok bytes) (hs : s.Valid) :
    e.Locates source bytes s (e.offset source s.start, e.offset source s.stop) where
  ordered := by
    rw [offset_stop hs]
    exact Nat.le_add_right _ _
  bounded := offset_le hb _
  before := (encode_cut hb _).1
  within := by
    rw [List.extract, (encode_cut hb _).2, offset_stop hs, Nat.add_sub_cancel_left,
      Span.drop_start hs, List.flatMap_append, List.take_left]
  behind := (encode_cut hb _).2

theorem Locates.unique {range range' : Nat × Nat} (h : e.Locates source bytes s range)
    (h' : e.Locates source bytes s range') : range = range' := by
  have hfirst := congrArg List.length (h.before.trans h'.before.symm)
  have hlast := congrArg List.length (h.behind.trans h'.behind.symm)
  rw [List.length_take, List.length_take] at hfirst
  rw [List.length_drop, List.length_drop] at hlast
  have hle := h.ordered
  have hle' := h'.ordered
  have hbound := h.bounded
  have hbound' := h'.bounded
  apply Prod.ext
  · omega
  · omega

/-- The range that is computed begins where the span does. The mark is counted once more in its
end. -/
theorem byteRange_eq (hb : e.encode source = .ok bytes) (hs : s.Valid) :
    e.byteRange s source =
      .ok (e.offset source s.start, e.offset source s.stop + e.byteOrderMark.length) := by
  have hhas := (encode_eq_ok hb).1
  have hbefore : e.Has (source.take s.start) := hhas.mono (List.take_subset _ _)
  have hwithin : e.Has (s.text source) := by
    refine hhas.mono fun c hc => ?_
    exact List.mem_of_mem_take (List.mem_of_mem_drop hc)
  have hend : e.offset source s.start +
      (e.byteOrderMark ++ (s.text source).flatMap e.bytesOf).length =
        e.offset source s.stop + e.byteOrderMark.length := by
    rw [offset_stop hs, List.length_append]
    omega
  rw [byteRange, encode_has hbefore, encode_has hwithin, ← hend]
  rfl

end Offsets

/-- The computed range of a span is the one that its characters have, adjacent spans have adjacent
ranges, and a span up to the end of the text ends with the bytes: each of these exactly if the
encoding has no mark. With a mark, only the end of the range is wrong, by the length of the mark. -/
theorem byteRange_locates_iff (hb : e.encode source = .ok bytes) (hs : s.Valid) :
    ∃ i j, e.byteRange s source = .ok (i, j) ∧
      e.Locates source bytes s (i, j - e.byteOrderMark.length) ∧
      (e.Locates source bytes s (i, j) ↔ e ≠ .utf16) ∧
      (∀ next : Span, next.start = s.stop → next.Valid →
        ∃ i' j', e.byteRange next source = .ok (i', j') ∧ (j = i' ↔ e ≠ .utf16)) ∧
      (s.stop = source.length → (j = bytes.length ↔ e ≠ .utf16)) := by
  have hlocates := locates_offset hb hs
  have hmark : ∀ k, k + e.byteOrderMark.length = k ↔ e ≠ .utf16 := by
    intro k
    rw [← byteOrderMark_eq_nil, ← List.length_eq_zero_iff]
    omega
  refine ⟨_, _, byteRange_eq hb hs, ?_, ?_, ?_, ?_⟩
  · rwa [Nat.add_sub_cancel]
  · rw [← hmark (e.offset source s.stop)]
    constructor
    · intro h
      exact congrArg Prod.snd (h.unique hlocates)
    · intro h
      rwa [h]
  · intro next hstart hnext
    refine ⟨_, _, byteRange_eq hb hnext, ?_⟩
    rw [hstart]
    exact hmark _
  · intro hstop
    rw [← offset_length hb, hstop]
    exact hmark _

theorem byteRange_locates_pair :
    Encoding.utf16Little.encode "a😀b" =
      .ok [0x61, 0x00, 0x3D, 0xD8, 0x00, 0xDE, 0x62, 0x00] ∧ (Span.mk 1 2).Valid ∧
    Encoding.utf16Little.byteRange ⟨1, 2⟩ "a😀b" = .ok (2, 6) ∧
    Encoding.utf16Little.Locates "a😀b" [0x61, 0x00, 0x3D, 0xD8, 0x00, 0xDE, 0x62, 0x00] ⟨1, 2⟩
      (2, 6) := by
  have hb : Encoding.utf16Little.encode "a😀b" =
      .ok [0x61, 0x00, 0x3D, 0xD8, 0x00, 0xDE, 0x62, 0x00] := by decide
  have hr : Encoding.utf16Little.byteRange ⟨1, 2⟩ "a😀b" = .ok (2, 6) := by decide
  obtain ⟨i, j, h, -, hlocates, -⟩ := byteRange_locates_iff hb (s := ⟨1, 2⟩) (by decide)
  rw [hr] at h
  obtain ⟨rfl, rfl⟩ := Prod.mk.inj (Except.ok.inj h)
  exact ⟨hb, by decide, hr, hlocates.mpr (by decide)⟩

/-- Behind a mark, the range of a single character ends past the end of the bytes. -/
theorem byteRange_marked :
    Encoding.utf16.encode "a" = .ok [0xFF, 0xFE, 0x61, 0x00] ∧
    Encoding.utf16.byteRange ⟨0, 1⟩ "a" = .ok (2, 6) ∧
    ¬ Encoding.utf16.Locates "a" [0xFF, 0xFE, 0x61, 0x00] ⟨0, 1⟩ (2, 6) := by
  refine ⟨by decide, by decide, fun h => ?_⟩
  exact absurd h.bounded (by decide)

end Encoding

namespace Span

variable {a b k : Nat} {spans : List Span} {s : Span}

theorem tiles_mem (h : Tiles a spans b) (hs : s ∈ spans) :
    a ≤ s.start ∧ s.start < s.stop ∧ s.stop ≤ b := by
  induction spans generalizing a with
  | nil => cases hs
  | cons first spans ih =>
    obtain ⟨rfl, hf, ht⟩ := h
    rcases List.mem_cons.mp hs with rfl | hs
    · exact ⟨Nat.le_refl _, hf, tiles_le ht⟩
    · obtain ⟨hstart, hlt, hstop⟩ := ih ht hs
      exact ⟨by omega, hlt, hstop⟩

theorem tiles_union (h : Tiles a spans b) :
    (a ≤ k ∧ k < b) ↔ ∃ s ∈ spans, s.start ≤ k ∧ k < s.stop := by
  induction spans generalizing a with
  | nil =>
    obtain rfl : a = b := h
    simp
  | cons first spans ih =>
    obtain ⟨rfl, hf, ht⟩ := h
    have hle := tiles_le ht
    rw [List.exists_mem_cons_iff, ← ih ht]
    omega

theorem tiles_map {f : Nat → Nat} (hf : ∀ i j, i < j → j ≤ b → f i < f j) (h : Tiles a spans b) :
    Tiles (f a) (spans.map fun s => ⟨f s.start, f s.stop⟩) (f b) := by
  induction spans generalizing a with
  | nil => exact congrArg f h
  | cons first spans ih =>
    obtain ⟨rfl, hlt, ht⟩ := h
    exact ⟨rfl, hf _ _ hlt (tiles_le ht), ih ht⟩

end Span

section Script

variable {text : Text} {n : Node}

theorem Encoding.encode_utf8 (t : Text) : Encoding.utf8.encode t = .ok (Utf8.encode t) :=
  Encoding.encode_has fun c _ => ⟨Utf8.encodeChar c, rfl⟩

theorem offset_lt {s : Span} (hlt : s.start < s.stop) (hle : s.stop ≤ text.length) :
    Encoding.utf8.offset text s.start < Encoding.utf8.offset text s.stop := by
  have hne : s.text text ≠ [] := by
    rw [← List.length_pos_iff, Span.text, List.length_drop, List.length_take]
    omega
  have hpos : 0 < ((s.text text).flatMap Encoding.utf8.bytesOf).length :=
    List.length_pos_iff.mpr (mt Utf8.encode_eq_nil.mp hne)
  rw [Encoding.offset_stop (Nat.le_of_lt hlt)]
  omega

theorem mem_nodes (h : n ∈ (recognize text).nodes) : n ∈ (recognize text).leaves ∨
    ∃ s, (recognize text).shebang = some s ∧ n = ⟨.shebangLine, s.span⟩ := by
  by_cases hk : n.kind = .shebangLine
  · right
    rcases List.mem_append.mp h with h | h
    · cases hs : (recognize text).shebang with
      | none =>
        rw [hs] at h
        cases h
      | some s =>
        rw [hs] at h
        obtain ⟨l, body, -, -, rfl⟩ := shebang_eq_some_iff.mp hs
        rcases List.mem_cons.mp h with rfl | h
        · exact ⟨_, rfl, rfl⟩
        · exact absurd hk (kind_of_node h)
    · split at h
      · cases h
      · rw [List.mem_singleton.mp h] at hk
        cases hk
  · left
    exact List.mem_filter.mpr ⟨h, decide_eq_true hk⟩

theorem shebang_nodes {s : ShebangLine} (hs : (recognize text).shebang = some s) :
    Span.Tiles s.span.start (s.nodes.map Node.span) s.span.stop ∧ s.span.stop ≤ text.length := by
  obtain ⟨l, body, -, rfl, rfl⟩ := shebang_eq_some_iff.mp hs
  refine ⟨shebang_tiles l, ?_⟩
  change l.render.length ≤ (l.render ++ body).length
  simp

theorem span_of_node (h : n ∈ (recognize text).nodes) : n.span.Valid := by
  rcases mem_nodes h with h | ⟨s, hs, rfl⟩
  · obtain ⟨-, hlt, -⟩ := Span.tiles_mem (leaves_tile text) (List.mem_map_of_mem h)
    exact Nat.le_of_lt hlt
  · exact Span.tiles_le (shebang_nodes hs).1

theorem nodes_eq_nil : (recognize text).nodes = [] ↔ text = [] := by
  constructor
  · intro h
    have ht := leaves_tile text
    rw [Script.leaves, h] at ht
    exact List.length_eq_zero_iff.mp (Eq.symm ht)
  · rintro rfl
    decide

/-- The byte ranges of the leaves tile the encoded text, that of the shebang line is the union of
those of its nodes, and in each range the bytes are the text of the node. -/
theorem recognize_byteRanges (text : Text) :
    ∃ range : Node → Span,
      (∀ n ∈ (recognize text).nodes,
        Encoding.utf8.byteRange n.span text = .ok ((range n).start, (range n).stop) ∧
        (Utf8.encode text).extract (range n).start (range n).stop =
          Utf8.encode ((recognize text).textOf n)) ∧
      Span.Tiles 0 ((recognize text).leaves.map range) (Utf8.encode text).length ∧
      ((recognize text).nodes = [] ↔ text = []) ∧
      ∀ s, (recognize text).shebang = some s → ∀ k,
        ((range ⟨.shebangLine, s.span⟩).start ≤ k ∧ k < (range ⟨.shebangLine, s.span⟩).stop ↔
          ∃ n ∈ s.nodes, (range n).start ≤ k ∧ k < (range n).stop) := by
  have hb := Encoding.encode_utf8 text
  have hincreasing : ∀ b ≤ text.length, ∀ i j, i < j → j ≤ b →
      Encoding.utf8.offset text i < Encoding.utf8.offset text j := by
    intro b hb i j hij hj
    exact offset_lt (s := ⟨i, j⟩) hij (Nat.le_trans hj hb)
  refine ⟨fun n => ⟨Encoding.utf8.offset text n.span.start, Encoding.utf8.offset text n.span.stop⟩,
    ?_, ?_, nodes_eq_nil, ?_⟩
  · intro n hn
    have hs := span_of_node hn
    exact ⟨Encoding.byteRange_eq hb hs, (Encoding.locates_offset hb hs).within⟩
  · have ht := Span.tiles_map (hincreasing _ (Nat.le_refl _)) (leaves_tile text)
    rw [Encoding.offset_length hb, List.map_map] at ht
    exact ht
  · intro s hs k
    obtain ⟨htiles, hle⟩ := shebang_nodes hs
    have ht := Span.tiles_union (k := k) (Span.tiles_map (hincreasing _ hle) htiles)
    simpa using ht

def accented : Text := "#!/bin/sh é\nü"

theorem recognize_accented :
    ⟨.arguments, ⟨10, 11⟩⟩ ∈ (recognize accented).nodes ∧
    Encoding.utf8.byteRange ⟨10, 11⟩ accented = .ok (10, 12) ∧
    (Utf8.encode accented).extract 10 12 = Utf8.encode "é" := by
  have hn : ⟨.arguments, ⟨10, 11⟩⟩ ∈ (recognize accented).nodes := by decide
  have hr : Encoding.utf8.byteRange ⟨10, 11⟩ accented = .ok (10, 12) := by decide
  obtain ⟨range, hnodes, -⟩ := recognize_byteRanges accented
  obtain ⟨hrange, hbytes⟩ := hnodes _ hn
  obtain ⟨hstart, hstop⟩ := Prod.mk.inj (Except.ok.inj (hr.symm.trans hrange))
  rw [← hstart, ← hstop] at hbytes
  exact ⟨hn, hr, hbytes⟩

end Script

end Shebang
