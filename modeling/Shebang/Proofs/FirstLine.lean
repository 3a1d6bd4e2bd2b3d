import Shebang.Detect
import Shebang.Proofs.Attempt
import Shebang.Proofs.Partition
import Shebang.Proofs.Utf8

/-!
The first line of a file and the first line of its text. Detection cuts the line out of the bytes
and decodes it, recognition looks for a line feed in the text; both find the same shebang line,
since no byte of another character is a line feed.
-/

namespace Shebang

open Line

section Texts

variable {u t : Text}

theorem render_eq_firstLine {l : Line} {body : Text} (hl : l.WellFormed) (hu : '\n' ∉ u)
    (h : u ++ '\n' :: t = l.render ++ body) : l.render = u ++ ['\n'] ∧ body = t := by
  obtain ⟨first, hfirst, hr⟩ := render_first hl
  rw [hr, List.append_assoc] at h
  have hbefore : ∀ v : Text, '\n' ∉ v → ∀ x ∈ v, (x != '\n') = true := by
    rintro v hv x hx
    exact bne_iff_ne.mpr fun he => hv (he ▸ hx)
  have hstop : ∀ v : Text, Text.Stops (· != '\n') ('\n' :: v) := fun v =>
    Text.stops_cons.mpr rfl
  obtain ⟨rfl, hb⟩ := run_unique (hbefore u hu) (hstop t) (hbefore first hfirst) (hstop body) h
  exact ⟨hr, (List.cons.inj hb).2.symm⟩

/-- What stands behind the first line feed has no part in the shebang line. -/
theorem shebang_firstLine (hu : '\n' ∉ u) (t t' : Text) :
    (recognize (u ++ '\n' :: t)).shebang = (recognize (u ++ '\n' :: t')).shebang := by
  apply Option.ext
  intro s
  have hmove : ∀ t t' : Text, (recognize (u ++ '\n' :: t)).shebang = some s →
      (recognize (u ++ '\n' :: t')).shebang = some s := by
    intro t t' h
    obtain ⟨l, body, hl, ht, rfl⟩ := shebang_eq_some_iff.mp h
    obtain ⟨hr, -⟩ := render_eq_firstLine hl hu ht
    exact shebang_eq_some_iff.mpr ⟨l, t', hl, by simp [hr], rfl⟩
  exact ⟨hmove t t', hmove t' t⟩

theorem tag_firstLine (hu : '\n' ∉ u) (t t' : Text) :
    (recognize (u ++ '\n' :: t)).tag = (recognize (u ++ '\n' :: t')).tag :=
  congrArg tagOf (shebang_firstLine hu t t')

theorem tag_unmarked (h : t.take 2 ≠ "#!") : (recognize t).tag = .none := by
  have hb : ¬ Begins t := fun hb => h hb.marker
  rw [recognize_unbegun hb]

end Texts

section Bytes

variable {front rest content : Bytes}

theorem firstLine_terminated (hf : lineFeed ∉ front) (rest : Bytes) :
    firstLine (front ++ lineFeed :: rest) = front ++ [lineFeed] := by
  induction front with
  | nil => simp [firstLine]
  | cons b front ih =>
    rw [List.mem_cons, not_or] at hf
    rw [List.cons_append, firstLine, if_neg (Ne.symm hf.1), ih hf.2]
    rfl

theorem firstLine_unterminated (h : lineFeed ∉ content) : firstLine content = content := by
  induction content with
  | nil => rfl
  | cons b content ih =>
    rw [List.mem_cons, not_or] at h
    rw [firstLine, if_neg (Ne.symm h.1), ih h.2]

theorem firstLine_cases (content : Bytes) :
    (lineFeed ∉ content ∧ firstLine content = content) ∨
      ∃ front rest, lineFeed ∉ front ∧ content = front ++ lineFeed :: rest ∧
        firstLine content = front ++ [lineFeed] := by
  by_cases h : lineFeed ∈ content
  · obtain ⟨front, rest, hs, hf⟩ := List.eq_append_cons_of_mem h
    exact Or.inr ⟨front, rest, hf, hs, by rw [hs, firstLine_terminated hf]⟩
  · exact Or.inl ⟨h, firstLine_unterminated h⟩

theorem lineFeed_cut (content : Bytes) {n : Nat} (h : n < (firstLine content).length) :
    lineFeed ∉ (firstLine content).take n := by
  rcases firstLine_cases content with ⟨hc, he⟩ | ⟨front, rest, hf, -, he⟩
  · rw [he]
    exact fun hm => hc (List.mem_of_mem_take hm)
  · rw [he, List.length_append, List.length_singleton] at h
    rw [he, List.take_append_of_le_length (by omega)]
    exact fun hm => hf (List.mem_of_mem_take hm)

theorem firstLine_marked (after : Bytes) :
    firstLine (markerBytes ++ after) = markerBytes ++ firstLine after := rfl

/-- A line is looked at when it is shorter than the limit, or just as long and complete. -/
def Fits (line : Bytes) : Prop :=
  line.length < lineLimit ∨ line.length = lineLimit ∧ line.getLast? = some lineFeed

instance (line : Bytes) : Decidable (Fits line) := inferInstanceAs (Decidable (_ ∨ _ ∧ _))

theorem shebangText_unmarked (h : content.take 2 ≠ markerBytes) :
    shebangText content = .error .noMarker := if_pos h

theorem fits_marked (line : Bytes) : Fits (markerBytes ++ line) ↔
    line.length ≤ lineLimit - markerBytes.length ∧
      (line.length = lineLimit - markerBytes.length → line.getLast? = some lineFeed) := by
  have hl : (markerBytes ++ line).length = line.length + 2 := by simp [markerBytes]
  have he : lineLimit - markerBytes.length = 4094 := rfl
  have hlast : line.length = 4094 → (markerBytes ++ line).getLast? = line.getLast? := by
    intro h
    have hn : line ≠ [] := List.ne_nil_of_length_pos (by omega)
    rw [List.getLast?_append, List.getLast?_eq_some_getLast hn, Option.some_or]
  rw [Fits, hl, he, show lineLimit = 4096 from rfl]
  constructor
  · rintro (h | ⟨h, hf⟩)
    · exact ⟨by omega, fun h' => absurd h' (by omega)⟩
    · exact ⟨by omega, fun h' => hlast h' ▸ hf⟩
  · rintro ⟨h, hf⟩
    by_cases hn : line.length = 4094
    · exact Or.inr ⟨by omega, hlast hn ▸ hf hn⟩
    · exact Or.inl (by omega)

theorem cut_complete (after : Bytes) :
    ¬ (((firstLine after).take (lineLimit - markerBytes.length)).length =
          lineLimit - markerBytes.length ∧
        ((firstLine after).take (lineLimit - markerBytes.length)).getLast? ≠ some lineFeed) ↔
      Fits (markerBytes ++ firstLine after) := by
  rw [fits_marked]
  by_cases h : (firstLine after).length ≤ lineLimit - markerBytes.length
  · rw [List.take_of_length_le h]
    simp [h]
  · have hcut := lineFeed_cut after (Nat.lt_of_not_le h)
    have hl : ((firstLine after).take (lineLimit - markerBytes.length)).length =
        lineLimit - markerBytes.length := by
      rw [List.length_take]
      omega
    simp only [hl, true_and, h, false_and, iff_false, not_not]
    exact fun he => hcut (List.mem_of_getLast? he)

/-- Detection reads the first line of a marked file when it fits and is well encoded. -/
theorem shebangText_eq_ok_iff {s : Text} : shebangText content = .ok s ↔
    content.take 2 = markerBytes ∧ Fits (firstLine content) ∧
      Utf8.decode (firstLine content) = .ok s := by
  by_cases hm : content.take 2 = markerBytes
  · obtain ⟨after, rfl⟩ : ∃ after, content = markerBytes ++ after :=
      ⟨content.drop 2, by rw [← hm, List.take_append_drop]⟩
    have hdrop : (markerBytes ++ after).drop markerBytes.length = after := rfl
    simp only [shebangText, hdrop, firstLine_marked, hm]
    rw [if_neg (fun h => h rfl)]
    by_cases hf : Fits (markerBytes ++ firstLine after)
    · have hle := ((fits_marked _).mp hf).1
      rw [if_neg ((cut_complete after).mpr hf), List.take_of_length_le hle]
      cases hd : Utf8.decode (markerBytes ++ firstLine after) with
      | error e => simp
      | ok line => simp [hf]
    · rw [if_pos (not_not.mp fun h => hf ((cut_complete after).mp h))]
      simp [hf]
  · rw [shebangText_unmarked hm]
    simp [hm]

end Bytes

section Tags

variable {fs : FileSystem} {path : Path} {content : Bytes} {s : Text}

theorem readShebangLine_outcome (fs : FileSystem) (path : Path) :
    (readShebangLine fs path).outcome =
      match fs.read path with
      | .error .embeddedNul => .error .embeddedNul
      | .error (.refused ..) => .ok none
      | .ok content => .ok (shebangText content).toOption := by
  rw [readShebangLine]
  cases fs.read path with
  | error e => cases e <;> rfl
  | ok content =>
    cases hs : shebangText content with
    | ok line =>
      simp only [hs]
      rfl
    | error problem => cases problem <;> simp only [hs] <;> rfl

/-- The tag of a line that was read. A line that ends with the file counts as ended. -/
def lineTag : Option Text → Tag
  | none => .none
  | some line => (recognize (if line.getLast? = some '\n' then line else line ++ ['\n'])).tag

theorem shebangTag_outcome (fs : FileSystem) (path : Path) :
    (shebangTag fs path).outcome = (readShebangLine fs path).outcome.map lineTag := by
  rw [shebangTag, Attempt.outcome_bind]
  cases (readShebangLine fs path).outcome with
  | error e => rfl
  | ok line => cases line <;> rfl

theorem shebangTag_content (hr : fs.read path = .ok content) :
    (shebangTag fs path).outcome = .ok (lineTag (shebangText content).toOption) := by
  rw [shebangTag_outcome, readShebangLine_outcome, hr]
  rfl

theorem lineTag_ended (h : s.getLast? = some '\n') : lineTag (some s) = (recognize s).tag := by
  rw [lineTag, if_pos h]

theorem lineTag_unended (h : s.getLast? ≠ some '\n') :
    lineTag (some s) = (recognize (s ++ ['\n'])).tag := by
  rw [lineTag, if_neg h]

theorem lineTag_unmarked (h : s.take 2 ≠ "#!") : lineTag (some s) = .none := by
  rw [lineTag]
  apply tag_unmarked
  split
  · exact h
  · intro he
    rcases s with _ | ⟨x, _ | ⟨y, s⟩⟩
    · cases he
    · cases he
    · exact h he

theorem newline_notMem (h : lineFeed ∉ Utf8.encode s) : '\n' ∉ s := by
  intro hm
  exact h (List.mem_flatMap.mpr ⟨'\n', hm, by decide⟩)

theorem firstLine_prefix (content : Bytes) : firstLine content <+: content := by
  rcases firstLine_cases content with ⟨-, he⟩ | ⟨front, rest, -, hs, he⟩
  · rw [he]
  · exact ⟨rest, by rw [he, hs, List.append_assoc]; rfl⟩

theorem take_encode (h : firstLine content = Utf8.encode s) :
    content.take 2 = markerBytes ↔ s.take 2 = "#!" := by
  constructor
  · intro hm
    rw [← List.take_append_drop 2 content, hm, firstLine_marked] at h
    obtain ⟨u, t, rfl, hu, ht⟩ := Utf8.encode_split (b := 0x23) (by decide)
      (show Utf8.encode s = [] ++ 0x23 :: 0x21 :: _ from h.symm)
    obtain ⟨v, w, rfl, hv, -⟩ := Utf8.encode_split (b := 0x21) (by decide)
      (show Utf8.encode t = [] ++ 0x21 :: _ from ht.symm)
    rw [Utf8.encode_eq_nil.mp hu.symm, Utf8.encode_eq_nil.mp hv.symm]
    rfl
  · intro hm
    obtain ⟨rest, hc⟩ := firstLine_prefix content
    rw [← hc, h, ← List.take_append_drop 2 s, hm]
    rfl

theorem shebangTag_firstLine (hr : fs.read path = .ok content) (hf : Fits (firstLine content))
    (hd : Utf8.decode (firstLine content) = .ok s) :
    (shebangTag fs path).outcome = .ok (lineTag (some s)) := by
  rw [shebangTag_content hr]
  have he := take_encode (Utf8.decode_eq_ok_iff.mp hd)
  by_cases hm : content.take 2 = markerBytes
  · rw [shebangText_eq_ok_iff.mpr ⟨hm, hf, hd⟩]
    rfl
  · rw [shebangText_unmarked hm, lineTag_unmarked fun h => hm (he.mpr h)]
    rfl

theorem shebangTag_terminated {rest : Bytes} {u : Text}
    (hr : fs.read path = .ok (Utf8.encode u ++ lineFeed :: rest))
    (hf : lineFeed ∉ Utf8.encode u) (hl : (Utf8.encode u).length + 1 ≤ lineLimit) (t : Text) :
    (shebangTag fs path).outcome = .ok (recognize (u ++ '\n' :: t)).tag := by
  have hfirst := firstLine_terminated hf rest
  have hfits : Fits (Utf8.encode u ++ [lineFeed]) := by
    rw [Fits, List.length_append, List.length_singleton, List.getLast?_concat]
    rcases Nat.lt_or_eq_of_le hl with h | h
    · exact Or.inl h
    · exact Or.inr ⟨h, rfl⟩
  have hd : Utf8.decode (Utf8.encode u ++ [lineFeed]) = .ok (u ++ ['\n']) := by
    rw [Utf8.decode_eq_ok_iff, Utf8.encode_append]
    rfl
  rw [← hfirst] at hfits hd
  rw [tag_firstLine (newline_notMem hf) t [], ← lineTag_ended List.getLast?_concat]
  exact shebangTag_firstLine hr hfits hd

theorem shebangTag_unterminated (hr : fs.read path = .ok content) (hc : lineFeed ∉ content)
    (hl : content.length < lineLimit) (hd : Utf8.decode content = .ok s) :
    (shebangTag fs path).outcome = .ok (recognize (s ++ ['\n'])).tag := by
  have hfirst := firstLine_unterminated hc
  have hs : '\n' ∉ s := newline_notMem (Utf8.decode_eq_ok_iff.mp hd ▸ hc)
  have hfits : Fits content := Or.inl hl
  rw [← hfirst] at hfits hd
  rw [← lineTag_unended fun h => hs (List.mem_of_getLast? h)]
  exact shebangTag_firstLine hr hfits hd

/-- Detection and recognition agree. The tag of a file is that of its first line before any text at
all, whatever bytes follow the line; a line that ends with the file counts as ended. -/
theorem shebangTag_eq_recognize (hr : fs.read path = .ok content) :
    (∀ front rest s, content = front ++ lineFeed :: rest → lineFeed ∉ front →
      (front ++ [lineFeed]).length ≤ 4096 → Utf8.decode (front ++ [lineFeed]) = .ok s →
      (∀ t, (shebangTag fs path).outcome = .ok (recognize (s ++ t)).tag) ∧
      ∀ whole, Utf8.decode content = .ok whole →
        (shebangTag fs path).outcome = .ok (recognize whole).tag) ∧
    ∀ s, lineFeed ∉ content → content.length < 4096 → Utf8.decode content = .ok s →
      (shebangTag fs path).outcome = .ok (recognize (s ++ ['\n'])).tag := by
  constructor
  · rintro front rest s rfl hf hl hd
    rw [List.length_append] at hl
    obtain ⟨u, t, rfl, rfl, ht⟩ :=
      Utf8.encode_split (by decide) (Utf8.decode_eq_ok_iff.mp hd).symm
    obtain rfl := Utf8.encode_eq_nil.mp ht.symm
    have hafter := shebangTag_terminated hr hf hl
    constructor
    · intro t
      rw [List.append_assoc]
      exact hafter t
    · intro whole hw
      obtain ⟨v, t, rfl, hv, -⟩ :=
        Utf8.encode_split (by decide) (Utf8.decode_eq_ok_iff.mp hw).symm
      rw [Utf8.encode_injective hv] at hafter
      exact hafter t
  · intro s hc hl hd
    exact shebangTag_unterminated hr hc hl hd

end Tags

def brokenBelow : FileSystem :=
  ⟨fun _ => .regular (Utf8.encode "#!/é/zsh" ++ lineFeed :: [0xFF, 0x0A, 0xC3])⟩

theorem shebangTag_brokenBelow :
    brokenBelow.read (.ofText "run") =
      .ok (Utf8.encode "#!/é/zsh" ++ lineFeed :: [0xFF, 0x0A, 0xC3]) ∧
    lineFeed ∉ Utf8.encode "#!/é/zsh" ∧ (Utf8.encode "#!/é/zsh" ++ [lineFeed]).length ≤ 4096 ∧
    Utf8.decode (Utf8.encode "#!/é/zsh" ++ [lineFeed]) = .ok ("#!/é/zsh\n" : Text) ∧
    (recognize (("#!/é/zsh\n" : Text) ++ ("#!/bin/bash\n" : Text))).tag = .zsh ∧
    (shebangTag brokenBelow (.ofText "run")).outcome =
      .ok (recognize (("#!/é/zsh\n" : Text) ++ ("#!/bin/bash\n" : Text))).tag := by
  have hr : brokenBelow.read (.ofText "run") =
      .ok (Utf8.encode "#!/é/zsh" ++ lineFeed :: [0xFF, 0x0A, 0xC3]) := by decide +kernel
  have hf : lineFeed ∉ Utf8.encode "#!/é/zsh" := by decide +kernel
  have hl : (Utf8.encode "#!/é/zsh" ++ [lineFeed]).length ≤ 4096 := by decide +kernel
  have hd : Utf8.decode (Utf8.encode "#!/é/zsh" ++ [lineFeed]) = .ok ("#!/é/zsh\n" : Text) := by
    decide +kernel
  have ht : (recognize (("#!/é/zsh\n" : Text) ++ ("#!/bin/bash\n" : Text))).tag = .zsh := by
    decide +kernel
  exact ⟨hr, hf, hl, hd, ht,
    ((shebangTag_eq_recognize hr).1 _ _ _ rfl hf hl hd).1 "#!/bin/bash\n"⟩

end Shebang
