import Mathlib.Tactic

/-!
Data that travels in pieces, each with the offset at which it belongs.

* `Contiguous`: every piece starts where the one before it ends;
* `Contiguous.assemble`: a receiver that puts such pieces at their offsets, in whatever way, has
  their concatenation;
* `Contiguous.disjoint`: no two of them overlap.
-/

/-- A part of some data, and where it belongs. -/
structure Piece (α : Type*) where
  offset : ℕ
  data : List α
deriving DecidableEq

namespace Piece

variable {α : Type*}

/-- The position after the last one of a piece. -/
def stop (p : Piece α) : ℕ := p.offset + p.data.length

/-- What a piece has at a position of the whole. -/
def get? (p : Piece α) (position : ℕ) : Option α :=
  if p.offset ≤ position then p.data[position - p.offset]? else none

/-- The pieces cover a stretch from a position on, one after the other. -/
def Contiguous : ℕ → List (Piece α) → Prop
  | _, [] => True
  | start, p :: rest => p.offset = start ∧ Contiguous p.stop rest

instance : (start : ℕ) → (pieces : List (Piece α)) → Decidable (Contiguous start pieces)
  | _, [] => isTrue trivial
  | _, p :: rest =>
      have := instDecidableContiguous p.stop rest
      inferInstanceAs (Decidable (_ ∧ _))

/-- The data of some pieces, in their order. -/
def joined (pieces : List (Piece α)) : List α := pieces.flatMap data

/-- What a receiver of some pieces has at a position. -/
def assemble (pieces : List (Piece α)) (position : ℕ) : Option α :=
  pieces.findSome? fun p => p.get? position

variable {start : ℕ} {pieces : List (Piece α)}

lemma Contiguous.offset_ge (h : Contiguous start pieces) : ∀ p ∈ pieces, start ≤ p.offset := by
  induction pieces generalizing start with
  | nil => exact fun p hp => absurd hp List.not_mem_nil
  | cons q rest ih =>
      intro p hp
      obtain ⟨hq, hrest⟩ := h
      rcases List.mem_cons.mp hp with rfl | hp
      · exact hq.ge
      · have := ih hrest p hp
        rw [stop] at this
        omega

/-- **No overlap.** -/
lemma Contiguous.disjoint (h : Contiguous start pieces) :
    pieces.Pairwise fun p q => p.stop ≤ q.offset := by
  induction pieces generalizing start with
  | nil => exact List.Pairwise.nil
  | cons q rest ih => exact List.Pairwise.cons h.2.offset_ge (ih h.2)

lemma Contiguous.assemble_of_lt (h : Contiguous start pieces) {position : ℕ}
    (hlt : position < start) : assemble pieces position = none := by
  rw [assemble, List.findSome?_eq_none_iff]
  intro p hp
  have := h.offset_ge p hp
  rw [get?, if_neg (by omega)]

/-- **No gap**: at every position from the first one on the receiver has what the joined data
has. -/
lemma Contiguous.assemble (h : Contiguous start pieces) (i : ℕ) :
    Piece.assemble pieces (start + i) = (joined pieces)[i]? := by
  induction pieces generalizing start i with
  | nil => rfl
  | cons q rest ih =>
      obtain ⟨rfl, hrest⟩ := h
      have hget : q.get? (q.offset + i) = q.data[i]? := by
        rw [get?, if_pos (Nat.le_add_right _ _), Nat.add_sub_cancel_left]
      rw [Piece.assemble, List.findSome?_cons, hget, joined, List.flatMap_cons]
      rcases lt_or_ge i q.data.length with hlt | hge
      · rw [List.getElem?_eq_getElem hlt, List.getElem?_append_left hlt,
          List.getElem?_eq_getElem hlt]
      · rw [List.getElem?_eq_none hge, List.getElem?_append_right hge]
        have hposition : q.offset + i = q.stop + (i - q.data.length) := by
          rw [stop]
          omega
        rw [hposition]
        exact ih hrest _

end Piece
