import Mathlib.Data.List.TakeWhile
import Shebang.Cursor

/-!
What a cursor reads, said about the text that remains: a run is the longest prefix of its class, and
behind it the cursor is left with the rest.
-/

namespace Shebang

def Text.Stops (p : Char → Bool) (t : Text) : Prop := ∀ x, t.head? = some x → p x = false

section Runs

variable {p : Char → Bool} {u v : Text}

theorem Text.stops_nil : Text.Stops p [] := by
  simp [Stops]

theorem Text.stops_cons {x : Char} : Text.Stops p (x :: v) ↔ p x = false := by
  simp [Stops]

theorem Text.stops_append (hu : u ≠ []) : Text.Stops p (u ++ v) ↔ Text.Stops p u := by
  cases u with
  | nil => exact absurd rfl hu
  | cons x u => simp [Stops]

theorem Text.stops_dropWhile (t : Text) : Text.Stops p (t.dropWhile p) := by
  intro x hx
  have h := List.head?_dropWhile_not p t
  rwa [hx] at h

theorem takeWhile_stops (hv : Text.Stops p v) : v.takeWhile p = [] := by
  cases v with
  | nil => rfl
  | cons x v => simp [Text.stops_cons.mp hv]

theorem takeWhile_run (hu : ∀ x ∈ u, p x = true) (hv : Text.Stops p v) :
    (u ++ v).takeWhile p = u := by
  rw [List.takeWhile_append_of_pos hu, takeWhile_stops hv, List.append_nil]

theorem dropWhile_run (hu : ∀ x ∈ u, p x = true) (hv : Text.Stops p v) :
    (u ++ v).dropWhile p = v := by
  have h := List.takeWhile_append_dropWhile (p := p) (l := u ++ v)
  rw [takeWhile_run hu hv] at h
  exact List.append_cancel_left h

theorem drop_takeWhile (p : Char → Bool) (t : Text) :
    t.drop (t.takeWhile p).length = t.dropWhile p := by
  have h : (t.takeWhile p ++ t.dropWhile p).drop (t.takeWhile p).length = t.dropWhile p :=
    List.drop_left
  rwa [List.takeWhile_append_dropWhile] at h

theorem trimEnd_run (hu : Text.Stops p u.reverse) (hv : ∀ x ∈ v, p x = true) :
    Text.trimEnd p (u ++ v) = u := by
  have hr : ∀ x ∈ v.reverse, p x = true := fun x hx => hv x (List.mem_reverse.mp hx)
  rw [Text.trimEnd, List.reverse_append, dropWhile_run hr hu, List.reverse_reverse]

/-- The longest run of a class and what follows it are determined by the text. -/
theorem run_unique {u' v' : Text} (hu : ∀ x ∈ u, p x = true) (hv : Text.Stops p v)
    (hu' : ∀ x ∈ u', p x = true) (hv' : Text.Stops p v') (h : u ++ v = u' ++ v') :
    u = u' ∧ v = v' := by
  have he : u = u' := by
    rw [← takeWhile_run hu hv, h, takeWhile_run hu' hv']
  subst u'
  exact ⟨rfl, List.append_cancel_left h⟩

end Runs

namespace Cursor

@[simp] theorem advance_text (c : Cursor) (n : Nat) : (c.advance n).text = c.text := rfl

@[simp] theorem advance_pos (c : Cursor) (n : Nat) : (c.advance n).pos = c.pos + n := rfl

@[simp] theorem advance_stop (c : Cursor) (n : Nat) : (c.advance n).stop = c.stop := rfl

theorem advance_advance (c : Cursor) (m n : Nat) : (c.advance m).advance n = c.advance (m + n) := by
  simp [advance, Nat.add_assoc]

variable {c : Cursor} {p : Char → Bool} {u v : Text}

theorem remaining_advance (h : c.remaining = u ++ v) : (c.advance u.length).remaining = v := by
  have hd : (c.advance u.length).remaining = c.remaining.drop u.length := by
    simp [remaining, List.drop_drop]
  rw [hd, h, List.drop_left]

theorem text_of_remaining (h : c.remaining = u ++ v) :
    Span.text ⟨c.pos, c.pos + u.length⟩ c.text = u := by
  have ht : c.remaining.take u.length = u := by rw [h, List.take_left]
  have hl : u.length ≤ c.stop - c.pos := by
    have := c.length_remaining_le
    rw [h, List.length_append] at this
    unfold left at this
    omega
  rw [remaining, List.drop_take, List.take_take, Nat.min_eq_left hl] at ht
  rw [Span.text, List.drop_take, Nat.add_sub_cancel_left]
  exact ht

theorem takeSpan_of_ne_nil (hu : u ≠ []) :
    c.takeSpan u.length = some (⟨c.pos, c.pos + u.length⟩, c.advance u.length) := by
  simp [takeSpan, hu]

theorem takeRun_run (h : c.remaining = u ++ v) (hu : ∀ x ∈ u, p x = true)
    (hv : Text.Stops p v) : c.takeRun p = c.takeSpan u.length := by
  rw [takeRun, h, takeWhile_run hu hv]

theorem takeRun_some (h : c.remaining = u ++ v) (hn : u ≠ []) (hu : ∀ x ∈ u, p x = true)
    (hv : Text.Stops p v) :
    c.takeRun p = some (⟨c.pos, c.pos + u.length⟩, c.advance u.length) := by
  rw [takeRun_run h hu hv, takeSpan_of_ne_nil hn]

theorem takeRun_none (h : Text.Stops p c.remaining) : c.takeRun p = none := by
  rw [takeRun, takeWhile_stops h]
  rfl

/-- Whatever a run finds is a non-empty prefix of its class, and the class ends behind it. -/
theorem takeRun_split {d : Cursor} {s : Span} (h : c.takeRun p = some (s, d)) :
    ∃ u v, c.remaining = u ++ v ∧ u ≠ [] ∧ (∀ x ∈ u, p x = true) ∧ Text.Stops p v ∧
      s = ⟨c.pos, c.pos + u.length⟩ ∧ d = c.advance u.length := by
  obtain ⟨hn, hs, hd⟩ := takeSpan_eq_some h
  refine ⟨c.remaining.takeWhile p, c.remaining.dropWhile p, ?_, ?_, ?_, ?_, hs, hd⟩
  · exact List.takeWhile_append_dropWhile.symm
  · exact fun he => hn (by rw [he]; rfl)
  · exact fun x hx => List.mem_takeWhile_imp hx
  · exact Text.stops_dropWhile _

end Cursor

end Shebang
