import Mathlib.Data.Multiset.Count
import Mathlib.Algebra.BigOperators.Group.Multiset.Basic

/-!
# Pieces of a whole

A sequence cut in pieces, each with the offset it was cut at. Pieces tile the
sequence when every position is in exactly one of them and each carries what
stands there. Where the pieces are kept, and in which order, does not matter.
-/

namespace DartUdp.Lib

variable {α : Type}

/-- Some of a sequence, with where it starts. -/
structure Piece (α : Type) where
  offset : Nat
  content : List α

/-- The position lies in the piece. -/
def Piece.Covers (i : Nat) (p : Piece α) : Prop := p.offset ≤ i ∧ i < p.offset + p.content.length

instance (i : Nat) : DecidablePred (Piece.Covers (α := α) i) := fun p =>
  inferInstanceAs (Decidable (p.offset ≤ i ∧ i < p.offset + p.content.length))

/-- What stands in the sequence at the offset of the piece is the piece. -/
def Piece.Within (p : Piece α) (whole : List α) : Prop :=
  ∃ before rest, whole = before ++ (p.content ++ rest) ∧ before.length = p.offset

/-- Every position of the sequence is in one piece, and none is beyond it. -/
structure Tiles (pieces : Multiset (Piece α)) (whole : List α) : Prop where
  within : ∀ p ∈ pieces, p.Within whole
  once : ∀ i, pieces.countP (Piece.Covers i) = if i < whole.length then 1 else 0
  length : (pieces.map fun p => p.content.length).sum = whole.length

variable {pieces : Multiset (Piece α)} {whole : List α} {p q : Piece α} {i : Nat}

theorem Piece.Within.append (h : p.Within whole) (more : List α) : p.Within (whole ++ more) := by
  obtain ⟨before, rest, rfl, hlen⟩ := h
  exact ⟨before, rest ++ more, by simp, hlen⟩

theorem Piece.Within.stop_le (h : p.Within whole) : p.offset + p.content.length ≤ whole.length := by
  obtain ⟨before, rest, rfl, hlen⟩ := h
  simp only [List.length_append]
  omega

/-- The entry of a piece is that of the whole. -/
theorem Piece.Within.getElem? (h : p.Within whole) (hc : p.Covers i) :
    p.content[i - p.offset]? = whole[i]? := by
  obtain ⟨before, rest, rfl, hlen⟩ := h
  obtain ⟨hle, hlt⟩ := hc
  rw [List.getElem?_append_right (by omega), hlen, List.getElem?_append_left (by omega)]

namespace Tiles

theorem nil : Tiles (0 : Multiset (Piece α)) [] :=
  ⟨fun _ h => absurd h (Multiset.notMem_zero _), fun _ => rfl, rfl⟩

/-- The next piece. -/
theorem concat (h : Tiles pieces whole) (more : List α) :
    Tiles (⟨whole.length, more⟩ ::ₘ pieces) (whole ++ more) := by
  refine ⟨fun p hp => ?_, fun i => ?_, ?_⟩
  · rcases Multiset.mem_cons.1 hp with rfl | hp
    · exact ⟨whole, [], by simp, rfl⟩
    · exact (h.within p hp).append more
  · rw [Multiset.countP_cons, h.once i, List.length_append]
    show _ + (if whole.length ≤ i ∧ i < whole.length + more.length then 1 else 0) = _
    by_cases hi : i < whole.length
    · rw [if_pos hi, if_neg (by omega), if_pos (by omega)]
    · rw [if_neg hi, Nat.zero_add]
      exact if_congr (by omega) rfl rfl
  · rw [Multiset.map_cons, Multiset.sum_cons, h.length, List.length_append, Nat.add_comm]

/-- A position is in no second piece. -/
theorem not_covers (h : Tiles (p ::ₘ pieces) whole) (hp : p.Covers i) (hq : q ∈ pieces) :
    ¬ q.Covers i := by
  intro hc
  have honce := h.once i
  rw [Multiset.countP_cons, if_pos hp] at honce
  have hpos : 0 < pieces.countP (Piece.Covers i) := Multiset.countP_pos.2 ⟨q, hq, hc⟩
  split at honce <;> omega

theorem covers_lt (h : Tiles pieces whole) (hp : p ∈ pieces) (hc : p.Covers i) :
    i < whole.length := by
  have hstop := (h.within p hp).stop_le
  have hlt := hc.2
  omega

/-- A few of the pieces are not longer than the whole. -/
theorem sum_le (h : Tiles pieces whole) {some : Multiset (Piece α)} (hle : some ≤ pieces) :
    (some.map fun p => p.content.length).sum ≤ whole.length := by
  obtain ⟨others, rfl⟩ := Multiset.le_iff_exists_add.1 hle
  have hlen := h.length
  rw [Multiset.map_add, Multiset.sum_add] at hlen
  omega

end Tiles

end DartUdp.Lib
