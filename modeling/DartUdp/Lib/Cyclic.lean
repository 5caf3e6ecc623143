import Mathlib.Algebra.CharP.Two
import Mathlib.Data.Nat.Bitwise
import Mathlib.Data.Nat.Digits.Lemmas
import Mathlib.Algebra.Field.ZMod
import Mathlib.RingTheory.AdjoinRoot

/-!
# Registers with feedback

A word is read as a polynomial over the field of two elements, its lowest bit as
the highest power. A turn of the register, which shifts it down and puts in the
taps when a one falls out, is then the multiplication by the variable, modulo the
generator that the taps are; and a symbol put into the register is added to it.

The generator is odd, so the variable has an inverse and what is taken in later
never undoes a difference. Symbols that together are no wider than the register are
one word, turned through as many bits, and the register tells such words apart.
-/

namespace DartUdp.Lib

open Polynomial

/-! ## Windows -/

/-- Two lists that are the same outside the `len` places from `start` on. -/
def SameOutside {α : Type} (start len : Nat) (l l' : List α) : Prop :=
  l'.length = l.length ∧ ∀ i, i < start ∨ start + len ≤ i → l'[i]? = l[i]?

namespace SameOutside

variable {α β : Type} {start len : Nat} {l l' : List α}

theorem map (h : SameOutside start len l l') (f : α → β) :
    SameOutside start len (l.map f) (l'.map f) := by
  refine ⟨by simpa only [List.length_map] using h.1, fun i hi => ?_⟩
  rw [List.getElem?_map, List.getElem?_map, h.2 i hi]

/-- What does not overlap the window is the same. -/
theorem part (h : SameOutside start len l l') (first size : Nat)
    (hoff : start + len ≤ first ∨ first + size ≤ start) :
    (l'.drop first).take size = (l.drop first).take size := by
  refine List.ext_getElem? fun i => ?_
  rw [List.getElem?_take, List.getElem?_take]
  split
  case isTrue hi =>
    rw [List.getElem?_drop, List.getElem?_drop]
    exact h.2 _ (by omega)
  case isFalse => rfl

theorem split (h : SameOutside start len l l') :
    ∃ front win win' rest, l = front ++ (win ++ rest) ∧ l' = front ++ (win' ++ rest) ∧
      win.length = win'.length ∧ win.length ≤ len := by
  have hfront := h.part 0 start (.inr (Nat.zero_add start).le)
  have hrest : l'.drop (start + len) = l.drop (start + len) := by
    have hpart := h.part (start + len) l.length (.inl le_rfl)
    rwa [List.take_of_length_le, List.take_of_length_le] at hpart
    · exact (List.drop_sublist _ l).length_le
    · exact (List.drop_sublist _ l').length_le.trans h.1.le
  have hparts : ∀ x : List α,
      x = x.take start ++ ((x.drop start).take len ++ x.drop (start + len)) := by
    intro x
    rw [← List.drop_drop, List.take_append_drop, List.take_append_drop]
  refine ⟨l.take start, (l.drop start).take len, (l'.drop start).take len, l.drop (start + len),
    hparts l, ?_, ?_, List.length_take_le _ _⟩
  · rw [List.drop_zero, List.drop_zero] at hfront
    rw [← hfront, ← hrest]
    exact hparts l'
  · simp only [List.length_take, List.length_drop, h.1]

end SameOutside

/-! ## Words as polynomials -/

/-- The `w` lowest bits of `n`, the lowest as the highest power. -/
noncomputable def wordPoly : (w n : Nat) → (ZMod 2)[X]
  | 0, _ => 0
  | w + 1, n => C (n : ZMod 2) * X ^ w + wordPoly w (n / 2)

theorem natCast_xor (a b : Nat) : ((a ^^^ b : Nat) : ZMod 2) = a + b := by
  rw [← Nat.cast_add, ZMod.natCast_eq_natCast_iff]
  exact Nat.xor_mod_two_eq

theorem wordPoly_xor (w a b : Nat) : wordPoly w (a ^^^ b) = wordPoly w a + wordPoly w b := by
  induction w generalizing a b with
  | zero => simp [wordPoly]
  | succ w ih =>
      rw [wordPoly, wordPoly, wordPoly, natCast_xor, Nat.xor_div_two, ih, C_add]
      ring

theorem wordPoly_zero (w : Nat) : wordPoly w 0 = 0 := by
  induction w with
  | zero => rfl
  | succ w ih => simp [wordPoly, ih]

/-- A word that leaves the top bit free can be moved up one power. -/
theorem X_mul_wordPoly {w n : Nat} (h : n < 2 ^ w) : X * wordPoly w n = wordPoly (w + 1) n := by
  induction w generalizing n with
  | zero =>
      obtain rfl : n = 0 := by simpa using h
      simp [wordPoly]
  | succ w ih =>
      have hhalf : n / 2 < 2 ^ w := by
        rw [pow_succ] at h
        omega
      calc X * wordPoly (w + 1) n
          = C (n : ZMod 2) * X ^ (w + 1) + X * wordPoly w (n / 2) := by
            rw [wordPoly]
            ring
        _ = wordPoly (w + 2) n := by
            rw [ih hhalf]
            rfl

theorem degree_wordPoly_lt (w n : Nat) : (wordPoly w n).degree < w := by
  induction w generalizing n with
  | zero => simp [wordPoly]
  | succ w ih =>
      have hhigh := degree_C_mul_X_pow_le w (n : ZMod 2)
      have hlow : (wordPoly w (n / 2)).degree ≤ w := (ih _).le
      refine ((degree_add_le _ _).trans (max_le hhigh hlow)).trans_lt ?_
      exact_mod_cast Nat.lt_succ_self w

theorem eq_zero_of_wordPoly {w n : Nat} (h : n < 2 ^ w) (hzero : wordPoly w n = 0) : n = 0 := by
  induction w generalizing n with
  | zero => simpa using h
  | succ w ih =>
      have htop : (n : ZMod 2) = 0 := by
        have hcoeff := congrArg (coeff · w) hzero
        have hlow := coeff_eq_zero_of_degree_lt (degree_wordPoly_lt w (n / 2))
        simpa [wordPoly, hlow] using hcoeff
      have hrest : wordPoly w (n / 2) = 0 := by
        rwa [wordPoly, htop, C_0, zero_mul, zero_add] at hzero
      have heven : n % 2 = 0 := by
        rw [ZMod.natCast_eq_zero_iff] at htop
        omega
      have hhalf : n / 2 = 0 := ih (by rw [pow_succ] at h; omega) hrest
      omega

theorem coeff_zero_wordPoly (w n : Nat) :
    (wordPoly (w + 1) n).coeff 0 = ((n / 2 ^ w : Nat) : ZMod 2) := by
  induction w generalizing n with
  | zero => simp [wordPoly]
  | succ w ih =>
      rw [wordPoly, coeff_add, ih, mul_coeff_zero, coeff_X_pow, if_neg (by omega), mul_zero,
        zero_add, Nat.div_div_eq_div_mul, pow_succ, Nat.mul_comm]

/-! ## The register -/

/-- A register that shifts down. The highest tap is set, so that no turn loses
anything. -/
structure Register where
  width : Nat
  taps : Nat
  bound : taps < 2 ^ width
  odd : taps / 2 ^ (width - 1) = 1

namespace Register

variable {r : Register} {n m k : Nat}

/-- The bit that falls out puts the taps in. -/
def turn (r : Register) (n : Nat) : Nat := if n &&& 1 = 1 then (n >>> 1) ^^^ r.taps else n >>> 1

/-- A symbol of `k` bits is put in, and turned through. -/
def feed (r : Register) (k n symbol : Nat) : Nat := r.turn^[k] (n ^^^ symbol)

theorem width_pos (r : Register) : 0 < r.width := by
  refine Nat.pos_of_ne_zero fun hzero => ?_
  have hbound := r.bound
  have hodd := r.odd
  rw [hzero] at hbound hodd
  simp only [Nat.zero_sub, pow_zero, Nat.div_one] at hbound hodd
  omega

theorem turn_lt (h : n < 2 ^ r.width) : r.turn n < 2 ^ r.width := by
  have hhalf : n >>> 1 < 2 ^ r.width := (Nat.shiftRight_le n 1).trans_lt h
  unfold turn
  split
  · exact Nat.xor_lt_two_pow hhalf r.bound
  · exact hhalf

theorem turns_lt (h : n < 2 ^ r.width) : r.turn^[k] n < 2 ^ r.width :=
  Function.Iterate.rec (fun n => n < 2 ^ r.width) h (fun _ => turn_lt) k

theorem feed_lt (h : n < 2 ^ r.width) (hm : m < 2 ^ r.width) : r.feed k n m < 2 ^ r.width :=
  turns_lt (Nat.xor_lt_two_pow h hm)

/-! ## Words modulo the generator -/

noncomputable def generator (r : Register) : (ZMod 2)[X] := X ^ r.width + wordPoly r.width r.taps

/-- What a register holds, modulo the generator. -/
noncomputable def residue (r : Register) (n : Nat) : AdjoinRoot r.generator :=
  AdjoinRoot.mk r.generator (wordPoly r.width n)

/-- The variable, modulo the generator. -/
noncomputable def root (r : Register) : AdjoinRoot r.generator := AdjoinRoot.root r.generator

theorem residue_xor (a b : Nat) : r.residue (a ^^^ b) = r.residue a + r.residue b := by
  rw [residue, wordPoly_xor, map_add]
  rfl

theorem degree_generator (r : Register) : r.generator.degree = r.width := by
  rw [generator, degree_add_eq_left_of_degree_lt, degree_X_pow]
  rw [degree_X_pow]
  exact degree_wordPoly_lt _ _

/-- The words of the register are told apart modulo the generator. -/
theorem residue_injOn (r : Register) : Set.InjOn r.residue {n | n < 2 ^ r.width} := by
  intro a ha b hb heq
  have hdvd : r.generator ∣ wordPoly r.width (a ^^^ b) := by
    rw [wordPoly_xor, ← CharTwo.sub_eq_add]
    exact AdjoinRoot.mk_eq_mk.1 heq
  have hzero : wordPoly r.width (a ^^^ b) = 0 := by
    refine eq_zero_of_dvd_of_degree_lt hdvd ?_
    rw [degree_generator]
    exact degree_wordPoly_lt _ _
  exact Nat.xor_eq_zero_iff.1 (eq_zero_of_wordPoly (Nat.xor_lt_two_pow ha hb) hzero)

/-- Above the width the taps stand for the power. -/
theorem mk_X_pow_width (r : Register) :
    AdjoinRoot.mk r.generator (X ^ r.width) = r.residue r.taps := by
  refine AdjoinRoot.mk_eq_mk.2 ?_
  rw [CharTwo.sub_eq_add]
  exact dvd_rfl

/-- A turn multiplies by the variable. -/
theorem residue_turn (h : n < 2 ^ r.width) : r.residue (r.turn n) = r.root * r.residue n := by
  have hmul : r.root * r.residue n =
      AdjoinRoot.mk r.generator (C (n : ZMod 2)) * r.residue r.taps + r.residue (n / 2) := by
    rw [root, residue, ← AdjoinRoot.mk_X, ← map_mul, X_mul_wordPoly h, wordPoly, map_add, map_mul,
      mk_X_pow_width]
    rfl
  rw [hmul, turn, Nat.and_one_is_mod, Nat.shiftRight_one]
  split
  case isTrue hodd =>
    have hone : (n : ZMod 2) = 1 := by
      rw [← Nat.cast_one, ZMod.natCast_eq_natCast_iff]
      exact hodd
    rw [hone, C_1, map_one, one_mul, residue_xor, add_comm]
  case isFalse heven =>
    have hzero : (n : ZMod 2) = 0 := by
      rw [ZMod.natCast_eq_zero_iff]
      omega
    rw [hzero, C_0, map_zero, zero_mul, zero_add]

theorem residue_turns (h : n < 2 ^ r.width) (k : Nat) :
    r.residue (r.turn^[k] n) = r.root ^ k * r.residue n := by
  induction k with
  | zero => simp
  | succ k ih =>
      rw [Function.iterate_succ_apply', residue_turn (turns_lt h), ih, pow_succ]
      ring

theorem residue_feed (h : n < 2 ^ r.width) (hm : m < 2 ^ r.width) (k : Nat) :
    r.residue (r.feed k n m) = r.root ^ k * (r.residue n + r.residue m) := by
  rw [feed, residue_turns (Nat.xor_lt_two_pow h hm), residue_xor]

/-- The variable has an inverse: the generator ends in a one. -/
theorem isUnit_root (r : Register) : IsUnit r.root := by
  obtain ⟨w, hw⟩ := Nat.exists_eq_add_of_le' r.width_pos
  have hodd : r.generator.coeff 0 = 1 := by
    have htop := r.odd
    rw [generator, hw, coeff_add, coeff_zero_wordPoly, coeff_X_pow, if_neg (by omega), zero_add]
    rw [hw, Nat.add_sub_cancel] at htop
    rw [htop, Nat.cast_one]
  have hsplit := congrArg (AdjoinRoot.mk r.generator) (X_mul_divX_add r.generator)
  rw [hodd, C_1, map_add, map_mul, map_one, AdjoinRoot.mk_X, AdjoinRoot.mk_self] at hsplit
  refine IsUnit.of_mul_eq_one (-AdjoinRoot.mk r.generator (divX r.generator)) ?_
  rw [root, mul_neg, eq_neg_of_add_eq_zero_left hsplit, neg_neg]

/-! ## Symbols in a row -/

/-- A word with `k` low zeros only moves down. -/
theorem turns_shifted (r : Register) (k v : Nat) : r.turn^[k] (2 ^ k * v) = v := by
  induction k with
  | zero => simp
  | succ k ih =>
      have heven : 2 ^ (k + 1) * v = 2 * (2 ^ k * v) := by
        rw [pow_succ]
        ring
      have hturn : r.turn (2 * (2 ^ k * v)) = 2 ^ k * v := by
        rw [turn, Nat.and_one_is_mod, if_neg (by omega), Nat.shiftRight_one]
        omega
      rw [Function.iterate_succ_apply, heven, hturn, ih]

/-- A symbol below what is put on top of it. -/
theorem add_shifted {symbol : Nat} (h : symbol < 2 ^ k) (v : Nat) :
    symbol + 2 ^ k * v = symbol ^^^ 2 ^ k * v := by
  refine Nat.eq_of_testBit_eq fun i => ?_
  rw [Nat.add_comm, Nat.testBit_two_pow_mul_add v h, Nat.testBit_xor, Nat.testBit_two_pow_mul]
  by_cases hi : i < k
  · simp [hi, Nat.not_le.2 hi]
  · have hclear : symbol.testBit i = false :=
      Nat.testBit_lt_two_pow (h.trans_le (Nat.pow_le_pow_right (by decide) (Nat.not_lt.1 hi)))
    simp [hi, Nat.not_lt.1 hi, hclear]

/-- Nothing is lost in what is taken in. -/
theorem feed_inj {n' : Nat} (h : n < 2 ^ r.width) (h' : n' < 2 ^ r.width) (hm : m < 2 ^ r.width)
    (heq : r.feed k n m = r.feed k n' m) : n = n' := by
  have hres := congrArg r.residue heq
  rw [residue_feed h hm, residue_feed h' hm] at hres
  have hsum := (r.isUnit_root.pow k).mul_left_cancel hres
  exact r.residue_injOn h h' (add_right_cancel hsum)

variable {symbols : List Nat}

theorem foldl_feed_lt (hsym : ∀ symbol ∈ symbols, symbol < 2 ^ r.width) (h : n < 2 ^ r.width) :
    symbols.foldl (r.feed k) n < 2 ^ r.width := by
  induction symbols generalizing n with
  | nil => exact h
  | cons symbol symbols ih =>
      obtain ⟨hfirst, hrest⟩ := List.forall_mem_cons.1 hsym
      exact ih hrest (feed_lt h hfirst)

theorem foldl_feed_inj {n' : Nat} (hsym : ∀ symbol ∈ symbols, symbol < 2 ^ r.width)
    (h : n < 2 ^ r.width) (h' : n' < 2 ^ r.width)
    (heq : symbols.foldl (r.feed k) n = symbols.foldl (r.feed k) n') : n = n' := by
  induction symbols generalizing n n' with
  | nil => exact heq
  | cons symbol symbols ih =>
      obtain ⟨hfirst, hrest⟩ := List.forall_mem_cons.1 hsym
      exact feed_inj h h' hfirst (ih hrest (feed_lt h hfirst) (feed_lt h' hfirst) heq)

theorem ofDigits_lt (hk : 0 < k) (hsym : ∀ symbol ∈ symbols, symbol < 2 ^ k) :
    Nat.ofDigits (2 ^ k) symbols < 2 ^ (k * symbols.length) := by
  rw [pow_mul]
  exact Nat.ofDigits_lt_base_pow_length (Nat.one_lt_two_pow hk.ne') hsym

/-- Symbols that have room in the register side by side count as the one word they
are, the first lowest. -/
theorem residue_foldl_feed (hk : 0 < k) (hsym : ∀ symbol ∈ symbols, symbol < 2 ^ k)
    (hfit : k * symbols.length ≤ r.width) (h : n < 2 ^ r.width) :
    r.residue (symbols.foldl (r.feed k) n) =
      r.root ^ (k * symbols.length) * (r.residue n + r.residue (Nat.ofDigits (2 ^ k) symbols)) := by
  induction symbols generalizing n with
  | nil => simp [residue, wordPoly_zero]
  | cons symbol symbols ih =>
      obtain ⟨hfirst, hrest⟩ := List.forall_mem_cons.1 hsym
      rw [List.length_cons, Nat.mul_succ] at hfit
      have hsymbol : symbol < 2 ^ r.width :=
        hfirst.trans_le (Nat.pow_le_pow_right (by decide) (by omega))
      have hword : 2 ^ k * Nat.ofDigits (2 ^ k) symbols < 2 ^ r.width :=
        calc 2 ^ k * Nat.ofDigits (2 ^ k) symbols
            < 2 ^ k * 2 ^ (k * symbols.length) :=
              Nat.mul_lt_mul_of_pos_left (ofDigits_lt hk hrest) (Nat.two_pow_pos k)
          _ = 2 ^ (k * symbols.length + k) := by rw [← pow_add, Nat.add_comm]
          _ ≤ 2 ^ r.width := Nat.pow_le_pow_right (by decide) hfit
      have hlift := residue_turns hword k
      rw [turns_shifted] at hlift
      rw [List.foldl_cons, ih hrest (by omega) (feed_lt h hsymbol), residue_feed h hsymbol, hlift,
        Nat.ofDigits_cons, add_shifted hfirst, residue_xor, List.length_cons, Nat.mul_succ, pow_add]
      ring

/-- So the register tells them apart. -/
theorem foldl_feed_unique {symbols' : List Nat} (hk : 0 < k)
    (hsym : ∀ symbol ∈ symbols, symbol < 2 ^ k) (hsym' : ∀ symbol ∈ symbols', symbol < 2 ^ k)
    (hlen : symbols.length = symbols'.length) (hfit : k * symbols.length ≤ r.width)
    (h : n < 2 ^ r.width)
    (heq : symbols.foldl (r.feed k) n = symbols'.foldl (r.feed k) n) : symbols = symbols' := by
  have hres := congrArg r.residue heq
  rw [residue_foldl_feed hk hsym hfit h, residue_foldl_feed hk hsym' (hlen ▸ hfit) h,
    ← hlen] at hres
  have hsum := (r.isUnit_root.pow (k * symbols.length)).mul_left_cancel hres
  have hle : 2 ^ (k * symbols.length) ≤ 2 ^ r.width := Nat.pow_le_pow_right (by decide) hfit
  have hword := r.residue_injOn ((ofDigits_lt hk hsym).trans_le hle)
    ((ofDigits_lt hk hsym').trans_le (hlen ▸ hle)) (add_left_cancel hsum)
  exact Nat.ofDigits_inj_of_len_eq (Nat.one_lt_two_pow hk.ne') hlen hsym hsym' hword

/-- What differs only within a window that has room in the register is told apart,
whatever comes before and after the window. -/
theorem window_unique {symbols' : List Nat} {start len : Nat} (hk : 0 < k) (hwidth : k ≤ r.width)
    (hsym : ∀ symbol ∈ symbols, symbol < 2 ^ k) (hsym' : ∀ symbol ∈ symbols', symbol < 2 ^ k)
    (hsame : SameOutside start len symbols symbols') (hfit : k * len ≤ r.width)
    (h : n < 2 ^ r.width)
    (heq : symbols.foldl (r.feed k) n = symbols'.foldl (r.feed k) n) : symbols = symbols' := by
  have hwide : ∀ {word : List Nat}, (∀ symbol ∈ word, symbol < 2 ^ k) →
      ∀ symbol ∈ word, symbol < 2 ^ r.width := fun hword symbol hmem =>
    (hword symbol hmem).trans_le (Nat.pow_le_pow_right (by decide) hwidth)
  obtain ⟨front, win, win', rest, rfl, rfl, hlen, hle⟩ := hsame.split
  obtain ⟨hfront, htail⟩ := List.forall_mem_append.1 hsym
  obtain ⟨hwin, hrest⟩ := List.forall_mem_append.1 htail
  obtain ⟨-, htail'⟩ := List.forall_mem_append.1 hsym'
  obtain ⟨hwin', -⟩ := List.forall_mem_append.1 htail'
  have hstart : front.foldl (r.feed k) n < 2 ^ r.width := foldl_feed_lt (hwide hfront) h
  simp only [List.foldl_append] at heq
  have hend := foldl_feed_inj (hwide hrest) (foldl_feed_lt (hwide hwin) hstart)
    (foldl_feed_lt (hwide hwin') hstart) heq
  have hroom : k * win.length ≤ r.width := (Nat.mul_le_mul_left k hle).trans hfit
  rw [foldl_feed_unique hk hwin hwin' hlen hroom hstart hend]

end Register

end DartUdp.Lib
