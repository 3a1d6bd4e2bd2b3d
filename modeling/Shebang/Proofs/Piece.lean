import Mathlib.Data.List.TakeWhile
import Shebang.Script

/-!
Pieces of a text and the nodes over them. Laid out from an offset, pieces tile a range: each node
starts where the one before it ends, and an empty piece has no node.
-/

namespace Shebang

namespace Span

/-- The spans cover `[a, b)` in order: none is empty, the first starts at `a`, each starts where the
one before it ends, and the last ends at `b`. -/
def Tiles : Nat → List Span → Nat → Prop
  | a, [], b => a = b
  | a, s :: spans, b => s.start = a ∧ s.start < s.stop ∧ Tiles s.stop spans b

variable {a b c : Nat} {left right spans : List Span}

theorem tiles_append (hl : Tiles a left b) (hr : Tiles b right c) : Tiles a (left ++ right) c := by
  induction left generalizing a with
  | nil => exact hl ▸ hr
  | cons s left ih => exact ⟨hl.1, hl.2.1, ih hl.2.2⟩

theorem tiles_le (h : Tiles a spans b) : a ≤ b := by
  induction spans generalizing a with
  | nil => exact Nat.le_of_eq h
  | cons s spans ih =>
    obtain ⟨rfl, hs, ht⟩ := h
    exact Nat.le_trans (Nat.le_of_lt hs) (ih ht)

theorem text_append (source : Text) (hab : a ≤ b) (hbc : b ≤ c) :
    text ⟨a, b⟩ source ++ text ⟨b, c⟩ source = text ⟨a, c⟩ source := by
  have hb : b = a + (b - a) := by omega
  have hc : c - a = (b - a) + (c - b) := by omega
  simp only [text, List.drop_take]
  rw [hc, List.take_add, List.drop_drop, ← hb]

theorem text_self (source : Text) : text ⟨a, a⟩ source = [] := by
  simp [text]

theorem tiles_text (h : Tiles a spans b) (source : Text) :
    spans.flatMap (fun s => s.text source) = text ⟨a, b⟩ source := by
  induction spans generalizing a with
  | nil =>
    rw [show a = b from h, text_self]
    rfl
  | cons s spans ih =>
    obtain ⟨rfl, hs, ht⟩ := h
    rw [List.flatMap_cons, ih ht]
    exact text_append source (Nat.le_of_lt hs) (tiles_le ht)

theorem text_middle (before t after : Text) :
    text ⟨before.length, before.length + t.length⟩ (before ++ t ++ after) = t := by
  have hl : before.length + t.length = (before ++ t).length := List.length_append.symm
  rw [text, hl, List.take_left, List.drop_left]

theorem text_whole (source : Text) : text ⟨0, source.length⟩ source = source := by
  simp [text]

end Span

structure Piece where
  kind : NodeKind
  text : Text
  deriving DecidableEq, Repr

theorem Node.unlessEmpty_tiles {kind : NodeKind} {a b : Nat} (h : a ≤ b) :
    Span.Tiles a ((Node.unlessEmpty kind ⟨a, b⟩).map Node.span) b := by
  by_cases he : a = b
  · simp [Node.unlessEmpty, Span.isEmpty, he, Span.Tiles]
  · simp [Node.unlessEmpty, Span.isEmpty, he, Span.Tiles]
    omega

def Node.read (source : Text) (n : Node) : Piece := ⟨n.kind, n.span.text source⟩

namespace Piece

def join (pieces : List Piece) : Text := pieces.flatMap Piece.text

def present (pieces : List Piece) : List Piece := pieces.filter fun p => !p.text.isEmpty

/-- The nodes of pieces that stand one behind the other from an offset on. -/
def layOut (pos : Nat) : List Piece → List Node
  | [] => []
  | p :: pieces =>
    Node.unlessEmpty p.kind ⟨pos, pos + p.text.length⟩ ++ layOut (pos + p.text.length) pieces

@[simp] theorem join_nil : join [] = [] := rfl

@[simp] theorem join_cons (p : Piece) (pieces : List Piece) :
    join (p :: pieces) = p.text ++ join pieces := rfl

@[simp] theorem join_append (left right : List Piece) :
    join (left ++ right) = join left ++ join right := List.flatMap_append

@[simp] theorem present_append (left right : List Piece) :
    present (left ++ right) = present left ++ present right := List.filter_append ..

variable {kind : NodeKind} {t : Text} {pos : Nat} {pieces : List Piece}

theorem present_cons_nil : present (⟨kind, []⟩ :: pieces) = present pieces := rfl

theorem present_cons (ht : t ≠ []) :
    present (⟨kind, t⟩ :: pieces) = ⟨kind, t⟩ :: present pieces := by
  simp [present, ht]

theorem mem_present {p : Piece} : p ∈ present pieces ↔ p ∈ pieces ∧ p.text ≠ [] := by
  simp [present]

@[simp] theorem layOut_nil : layOut pos [] = [] := rfl

theorem layOut_single : layOut pos [⟨kind, t⟩] = Node.unlessEmpty kind ⟨pos, pos + t.length⟩ := by
  simp [layOut]

theorem layOut_cons_nil : layOut pos (⟨kind, []⟩ :: pieces) = layOut pos pieces := by
  simp [layOut, Node.unlessEmpty, Span.isEmpty]

theorem layOut_cons (ht : t ≠ []) : layOut pos (⟨kind, t⟩ :: pieces) =
    ⟨kind, ⟨pos, pos + t.length⟩⟩ :: layOut (pos + t.length) pieces := by
  simp [layOut, Node.unlessEmpty, Span.isEmpty, ht]

theorem layOut_append (left right : List Piece) :
    layOut pos (left ++ right) = layOut pos left ++ layOut (pos + (join left).length) right := by
  induction left generalizing pos with
  | nil => rfl
  | cons p left ih => simp [layOut, ih, Nat.add_assoc]

theorem layOut_tiles (pos : Nat) (pieces : List Piece) :
    Span.Tiles pos ((layOut pos pieces).map Node.span) (pos + (join pieces).length) := by
  induction pieces generalizing pos with
  | nil => rfl
  | cons p pieces ih =>
    rw [layOut, join_cons, List.map_append, List.length_append, ← Nat.add_assoc]
    exact Span.tiles_append (Node.unlessEmpty_tiles (Nat.le_add_right pos _)) (ih _)

/-- Nodes laid out over a text read back as the pieces it was made of. -/
theorem layOut_read (before after : Text) (pieces : List Piece) :
    (layOut before.length pieces).map (Node.read (before ++ join pieces ++ after)) =
      present pieces := by
  induction pieces generalizing before with
  | nil => rfl
  | cons p pieces ih =>
    obtain ⟨kind, t⟩ := p
    by_cases ht : t = []
    · subst t
      rw [layOut_cons_nil, present_cons_nil]
      exact ih before
    · have hs : before ++ join (⟨kind, t⟩ :: pieces) ++ after =
          before ++ t ++ join pieces ++ after := by simp
      have ih := ih (before ++ t)
      rw [List.length_append] at ih
      rw [layOut_cons ht, present_cons ht, hs, List.map_cons, ih, Node.read]
      rw [List.append_assoc (before ++ t), Span.text_middle]

theorem kind_of_layOut {n : Node} (h : n ∈ layOut pos pieces) : n.kind ∈ pieces.map Piece.kind := by
  induction pieces generalizing pos with
  | nil => simp [layOut] at h
  | cons p pieces ih =>
    rcases List.mem_append.mp h with h | h
    · simp only [Node.unlessEmpty] at h
      split at h
      · simp at h
      · simp [List.mem_singleton.mp h]
    · exact List.mem_cons_of_mem _ (ih h)

end Piece

end Shebang
