import Mathlib.Data.Nat.Basic
import Mathlib.Tactic.Ring

/-!
# Bitmaps in words

A bitmap of `n` words of `w` bits each. Bit `i` of the bitmap is bit `i % w` of
word `i / w`. Shifting the bitmap moves whole words and, within them, takes the
top bits of one word over into the bottom of the next; marking sets one bit of
one word. What both do to the words is what they do to the bits, one by one.
-/

namespace DartUdp.Lib

abbrev Bitmap (w n : Nat) := Vector (BitVec w) n

namespace Bitmap

variable {w n : Nat}

/-- Bit `i`; the bits past the last word are clear. -/
def test (bits : Bitmap w n) (i : Nat) : Bool :=
  if h : i / w < n then bits[i / w].getLsbD (i % w) else false

/-- Bit `i` moves to bit `i + distance`; the bits below `distance` are clear. -/
def shift (bits : Bitmap w n) (distance : Nat) : Bitmap w n :=
  Vector.ofFn fun index =>
    have inside : index - distance / w < n := Nat.lt_of_le_of_lt (Nat.sub_le ..) index.isLt
    have before : index - distance / w - 1 < n := Nat.lt_of_le_of_lt (Nat.sub_le ..) inside
    if index ≥ distance / w then
      let value := bits[index - distance / w] <<< (distance % w)
      if distance % w ≠ 0 ∧ index > distance / w then
        value ||| bits[index - distance / w - 1] >>> (w - distance % w)
      else value
    else 0

/-- Sets the bit under the mask of a word. -/
def mark (bits : Bitmap w n) (word offset : Nat) (inside : word < n) : Bitmap w n :=
  bits.set word (bits[word] ||| 1#w <<< offset) inside

/-- The word has the bit under the mask set. -/
def marked (bits : Bitmap w n) (word offset : Nat) (inside : word < n) : Bool :=
  bits[word] &&& 1#w <<< offset != 0

/-! ## Bit by bit -/

theorem test_word {bits : Bitmap w n} {word offset : Nat} (inside : word < n)
    (small : offset < w) : bits.test (w * word + offset) = bits[word].getLsbD offset := by
  have quotient : (w * word + offset) / w = word := by
    rw [Nat.mul_add_div (by omega), Nat.div_eq_of_lt small, Nat.add_zero]
  have remainder : (w * word + offset) % w = offset := by
    rw [Nat.mul_add_mod, Nat.mod_eq_of_lt small]
  simp only [test, quotient, remainder, inside, dite_true]

/-- The bits of a bitmap are those of its words. -/
theorem exists_word {i : Nat} (inside : i < w * n) :
    ∃ word offset, i = w * word + offset ∧ word < n ∧ offset < w := by
  have positive : 0 < w := Nat.pos_of_ne_zero fun zero => by simp [zero] at inside
  exact ⟨i / w, i % w, (Nat.div_add_mod i w).symm, Nat.div_lt_of_lt_mul inside,
    Nat.mod_lt i positive⟩

theorem marked_eq_test {bits : Bitmap w n} {word offset : Nat} (inside : word < n)
    (small : offset < w) : bits.marked word offset inside = bits.test (w * word + offset) := by
  have nonzero : BitVec.twoPow w offset ≠ 0 := by
    intro zero
    have bit := congrArg (·.getLsbD offset) zero
    simp [small] at bit
  rw [test_word inside small, marked, ← BitVec.twoPow_eq, BitVec.and_twoPow]
  cases bits[word].getLsbD offset with
  | true => simpa using nonzero
  | false => simp

theorem test_clear (i : Nat) : test (Vector.replicate n 0 : Bitmap w n) i = false := by
  unfold test
  split
  · simp
  · rfl

/-- One bit of a shifted word: it comes from the same word, or from the word
below it. -/
theorem shift_word {bits : Bitmap w n} {word offset wordShift bitShift : Nat}
    (inside : word < n) (small : offset < w) (within : bitShift < w) :
    (bits.shift (w * wordShift + bitShift)).test (w * word + offset) =
      if wordShift ≤ word ∧ bitShift ≤ offset then
        bits.test (w * (word - wordShift) + (offset - bitShift))
      else if wordShift < word then
        bits.test (w * (word - wordShift - 1) + (w - bitShift + offset))
      else false := by
  have quotient : (w * wordShift + bitShift) / w = wordShift := by
    rw [Nat.mul_add_div (by omega), Nat.div_eq_of_lt within, Nat.add_zero]
  have remainder : (w * wordShift + bitShift) % w = bitShift := by
    rw [Nat.mul_add_mod, Nat.mod_eq_of_lt within]
  rw [test_word inside small]
  simp only [shift, Vector.getElem_ofFn, quotient, remainder]
  by_cases low : word ≥ wordShift
  · by_cases same : bitShift ≤ offset
    · have above : w ≤ w - bitShift + offset := by omega
      rw [if_pos low, if_pos (show wordShift ≤ word ∧ _ from ⟨low, same⟩),
        test_word (by omega : word - wordShift < n) (by omega : offset - bitShift < w)]
      split
      · simp only [BitVec.getLsbD_or, BitVec.getLsbD_shiftLeft, BitVec.getLsbD_ushiftRight,
          BitVec.getLsbD_of_ge _ _ above, small, Nat.not_lt.mpr same]
        simp
      · simp only [BitVec.getLsbD_shiftLeft, small, Nat.not_lt.mpr same]
        simp
    · have nonzero : bitShift ≠ 0 := by omega
      have below : offset < bitShift := by omega
      rw [if_pos low, if_neg (show ¬ (wordShift ≤ word ∧ bitShift ≤ offset) from
        fun h => same h.2)]
      by_cases strict : word > wordShift
      · rw [if_pos (show bitShift ≠ 0 ∧ word > wordShift from ⟨nonzero, strict⟩),
          if_pos (show wordShift < word from strict),
          test_word (by omega : word - wordShift - 1 < n) (by omega : w - bitShift + offset < w)]
        simp [below]
      · rw [if_neg (show ¬ (bitShift ≠ 0 ∧ word > wordShift) from fun h => strict h.2),
          if_neg (show ¬ wordShift < word from strict)]
        simp [below]
  · rw [if_neg low, if_neg fun h => low h.1, if_neg (by omega)]
    simp

theorem test_shift {bits : Bitmap w n} {distance i : Nat} (inside : i < w * n) :
    (bits.shift distance).test i = (decide (distance ≤ i) && bits.test (i - distance)) := by
  obtain ⟨word, offset, rfl, hword, small⟩ := exists_word inside
  obtain ⟨wordShift, bitShift, rfl, within⟩ :
      ∃ wordShift bitShift, distance = w * wordShift + bitShift ∧ bitShift < w :=
    ⟨distance / w, distance % w, (Nat.div_add_mod distance w).symm, Nat.mod_lt _ (by omega)⟩
  rw [shift_word hword small within]
  rcases Nat.lt_trichotomy wordShift word with strict | rfl | above
  · -- the word moves up by at least one: nothing of it falls out below
    obtain ⟨gap, rfl⟩ : ∃ gap, word = wordShift + 1 + gap := ⟨word - wordShift - 1, by omega⟩
    have expand : w * (wordShift + 1 + gap) = w * wordShift + w + w * gap := by ring
    have here : w * (wordShift + 1 + gap - wordShift) = w + w * gap := by
      rw [show wordShift + 1 + gap - wordShift = 1 + gap by omega]
      ring
    have before : w * (wordShift + 1 + gap - wordShift - 1) = w * gap := by
      rw [show wordShift + 1 + gap - wordShift - 1 = gap by omega]
    rw [here, before, expand, if_pos strict]
    have below : w * wordShift + bitShift ≤ w * wordShift + w + w * gap + offset := by omega
    simp only [below, decide_true, Bool.true_and]
    split
    · exact congrArg bits.test (by omega)
    · exact congrArg bits.test (by omega)
  · rw [if_neg (Nat.lt_irrefl _)]
    simp only [Nat.le_refl, true_and, Nat.sub_self, Nat.mul_zero, Nat.zero_add,
      Nat.add_le_add_iff_left, Nat.add_sub_add_left]
    by_cases same : bitShift ≤ offset
    · simp [same]
    · simp [same]
  · obtain ⟨gap, rfl⟩ : ∃ gap, wordShift = word + 1 + gap := ⟨wordShift - word - 1, by omega⟩
    have expand : w * (word + 1 + gap) = w * word + w + w * gap := by ring
    have outside : ¬ w * (word + 1 + gap) + bitShift ≤ w * word + offset := by
      rw [expand]
      omega
    rw [if_neg (by omega), if_neg (by omega)]
    simp [outside]

theorem test_mark {bits : Bitmap w n} {word offset i : Nat} (inside : word < n)
    (small : offset < w) (hi : i < w * n) :
    (bits.mark word offset inside).test i =
      (bits.test i || decide (i = w * word + offset)) := by
  obtain ⟨other, bit, rfl, hother, hbit⟩ := exists_word hi
  rw [test_word hother hbit, test_word hother hbit]
  by_cases same : other = word
  · subst same
    have single : (1#w <<< offset).getLsbD bit = decide (bit = offset) := by
      rw [← BitVec.twoPow_eq, BitVec.getLsbD_twoPow]
      simp [small, eq_comm]
    rw [mark, Vector.getElem_set_self, BitVec.getLsbD_or, single]
    simp
  · have differs : w * other + bit ≠ w * word + offset := by
      intro equal
      have quotient := congrArg (· / w) equal
      simp only [Nat.mul_add_div (by omega : 0 < w), Nat.div_eq_of_lt hbit,
        Nat.div_eq_of_lt small, Nat.add_zero] at quotient
      exact same quotient
    rw [mark, Vector.getElem_set_ne inside hother (Ne.symm same)]
    simp [differs]

end Bitmap

end DartUdp.Lib
