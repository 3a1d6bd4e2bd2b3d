import Shebang.Proofs.FirstLine

/-!
The limit on the first line. A file announces its first line if the line starts with the marker, is
not longer than the limit and is UTF-8. Detection reads every announced line but one: a line that
fills the limit and ends with the file is refused, as if it went on.
-/

namespace Shebang

inductive FirstLine : Bytes → Bytes → Prop where
  | ended {front : Bytes} (rest : Bytes) : lineFeed ∉ front →
      FirstLine (front ++ lineFeed :: rest) (front ++ [lineFeed])
  | whole {content : Bytes} : lineFeed ∉ content → FirstLine content content

structure Announced (content : Bytes) (s : Text) : Prop where
  marked : markerBytes <+: content
  first : FirstLine content (Utf8.encode s)
  within : (Utf8.encode s).length ≤ lineLimit

def Brimful (content : Bytes) : Prop := lineFeed ∉ content ∧ content.length = lineLimit

section Limit

variable {fs : FileSystem} {path : Path} {content line : Bytes} {s : Text}

theorem firstLine_eq_iff : firstLine content = line ↔ FirstLine content line := by
  constructor
  · rintro rfl
    rcases firstLine_cases content with ⟨hc, he⟩ | ⟨front, rest, hf, rfl, he⟩
    · rw [he]
      exact FirstLine.whole hc
    · rw [he]
      exact FirstLine.ended rest hf
  · intro h
    cases h with
    | ended rest hf => exact firstLine_terminated hf rest
    | whole hc => exact firstLine_unterminated hc

theorem marked_iff : markerBytes <+: content ↔ content.take 2 = markerBytes := by
  rw [List.prefix_iff_eq_take]
  exact eq_comm

theorem announced_iff : Announced content s ↔
    content.take 2 = markerBytes ∧ (firstLine content).length ≤ lineLimit ∧
      Utf8.decode (firstLine content) = .ok s := by
  constructor
  · rintro ⟨hm, hf, hl⟩
    rw [firstLine_eq_iff.mpr hf]
    exact ⟨marked_iff.mp hm, hl, Utf8.decode_eq_ok_iff.mpr rfl⟩
  · rintro ⟨hm, hl, hd⟩
    have he := Utf8.decode_eq_ok_iff.mp hd
    exact ⟨marked_iff.mpr hm, firstLine_eq_iff.mp he, he ▸ hl⟩

theorem fits_iff_not_brimful :
    Fits (firstLine content) ↔ (firstLine content).length ≤ lineLimit ∧ ¬ Brimful content := by
  rw [Fits, Brimful]
  rcases firstLine_cases content with ⟨hc, he⟩ | ⟨front, rest, -, hs, he⟩
  · have hlast : content.getLast? ≠ some lineFeed := fun h => hc (List.mem_of_getLast? h)
    rw [he]
    simp only [hlast, and_false, or_false, hc, not_false_eq_true, true_and]
    exact lt_iff_le_and_ne
  · have hm : lineFeed ∈ content := by simp [hs]
    rw [he]
    simp only [List.getLast?_concat, and_true, hm, not_true_eq_false, false_and, not_false_eq_true]
    exact le_iff_lt_or_eq.symm

theorem shebangText_announced :
    shebangText content = .ok s ↔ Announced content s ∧ ¬ Brimful content := by
  rw [shebangText_eq_ok_iff, announced_iff, fits_iff_not_brimful]
  tauto

theorem readShebangLine_content (hr : fs.read path = .ok content) :
    (readShebangLine fs path).outcome = .ok (shebangText content).toOption := by
  rw [readShebangLine_outcome, hr]

/-- Detection reads the announced line of a file unless it fills the limit without an end; every
other file has none. -/
theorem readShebangLine_announced (hr : fs.read path = .ok content) :
    (∀ s, (readShebangLine fs path).outcome = .ok (some s) ↔
      Announced content s ∧ ¬ Brimful content) ∧
    ((readShebangLine fs path).outcome = .ok none ↔
      ∀ s, Announced content s → Brimful content) := by
  rw [readShebangLine_content hr]
  constructor
  · intro s
    rw [← shebangText_announced]
    cases shebangText content with
    | ok line => simp [Except.toOption]
    | error problem => simp [Except.toOption]
  · cases hs : shebangText content with
    | ok line =>
      obtain ⟨ha, hb⟩ := shebangText_announced.mp hs
      simp only [Except.toOption, Except.ok.injEq, reduceCtorEq, false_iff, not_forall]
      exact ⟨line, ha, hb⟩
    | error problem =>
      simp only [Except.toOption, true_iff]
      intro s ha
      by_contra hb
      rw [shebangText_announced.mpr ⟨ha, hb⟩] at hs
      cases hs

end Limit

def longLine (n : Nat) : Text := ("#!/bin/zsh " : Text) ++ List.replicate n 'x'

theorem encode_longLine (n : Nat) :
    Utf8.encode (longLine n) = Utf8.encode "#!/bin/zsh " ++ List.replicate n 0x78 := by
  have hx : Utf8.encodeChar 'x' = [0x78] := by decide
  have hxs : Utf8.encode (List.replicate n 'x') = List.replicate n 0x78 := by
    rw [Utf8.encode, List.flatMap_replicate, hx, List.flatten_replicate_singleton]
  exact hxs ▸ Utf8.encode_append _ _

theorem longLine_unended (n : Nat) : lineFeed ∉ Utf8.encode (longLine n) := by
  have hfront : lineFeed ∉ Utf8.encode "#!/bin/zsh " := by decide
  have hx : lineFeed ≠ 0x78 := by decide
  rw [encode_longLine, List.mem_append, not_or]
  exact ⟨hfront, fun h => hx (List.eq_of_mem_replicate h)⟩

theorem longLine_length (n : Nat) : (Utf8.encode (longLine n)).length = n + 11 := by
  rw [encode_longLine, List.length_append, List.length_replicate, Nat.add_comm]
  rfl

theorem longLine_marked (n : Nat) (rest : Bytes) :
    markerBytes <+: Utf8.encode (longLine n) ++ rest :=
  ⟨(Utf8.encode (longLine n) ++ rest).drop 2, rfl⟩

def filledWith (content : Bytes) : FileSystem := ⟨fun _ => .regular content⟩

theorem read_filledWith (content : Bytes) :
    (filledWith content).read (.ofText "run") = .ok content := rfl

theorem readShebangLine_full :
    (filledWith (Utf8.encode (longLine 4084) ++ lineFeed :: [0xFF])).read (.ofText "run") =
      .ok (Utf8.encode (longLine 4084) ++ lineFeed :: [0xFF]) ∧
    (Utf8.encode (longLine 4084) ++ [lineFeed]).length = lineLimit ∧
    (readShebangLine (filledWith (Utf8.encode (longLine 4084) ++ lineFeed :: [0xFF]))
      (.ofText "run")).outcome = .ok (some (longLine 4084 ++ ['\n'])) := by
  have he : Utf8.encode (longLine 4084 ++ ['\n']) = Utf8.encode (longLine 4084) ++ [lineFeed] :=
    Utf8.encode_append _ _
  have hl : (Utf8.encode (longLine 4084) ++ [lineFeed]).length = lineLimit := by
    rw [List.length_append, longLine_length]
    rfl
  have hb : ¬ Brimful (Utf8.encode (longLine 4084) ++ lineFeed :: [0xFF]) := by
    rintro ⟨hf, -⟩
    exact hf (by simp)
  refine ⟨read_filledWith _, hl, ?_⟩
  refine ((readShebangLine_announced (read_filledWith _)).1 _).mpr ⟨⟨?_, ?_, ?_⟩, hb⟩
  · exact longLine_marked _ _
  · rw [he]
    exact FirstLine.ended _ (longLine_unended _)
  · rw [he]
    exact hl.le

/-- A line that fills the limit and ends with the file is announced and not read. -/
theorem readShebangLine_brimful :
    Announced (Utf8.encode (longLine 4085)) (longLine 4085) ∧
    (Utf8.encode (longLine 4085)).length = lineLimit ∧
    (readShebangLine (filledWith (Utf8.encode (longLine 4085))) (.ofText "run")).outcome =
      .ok none := by
  have hl : (Utf8.encode (longLine 4085)).length = lineLimit := longLine_length _
  have hm : markerBytes <+: Utf8.encode (longLine 4085) := by
    have h := longLine_marked 4085 []
    rwa [List.append_nil] at h
  have hb : Brimful (Utf8.encode (longLine 4085)) := ⟨longLine_unended _, hl⟩
  refine ⟨⟨hm, FirstLine.whole hb.1, hl.le⟩, hl, ?_⟩
  rw [readShebangLine_content (read_filledWith _)]
  cases hs : shebangText (Utf8.encode (longLine 4085)) with
  | ok line => exact absurd hb (shebangText_announced.mp hs).2
  | error problem => rfl

end Shebang
