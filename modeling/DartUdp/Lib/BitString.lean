import Mathlib.Data.List.OfFn
import Mathlib.Data.Set.Function
import Mathlib.Logic.Equiv.Fin.Basic
import DartUdp.Lib.Bytes

/-!
# Bits as symbols

The bits of a byte string, the highest of each byte first, are cut into symbols of
`k` bits, and each symbol is written as a letter of an alphabet of `2 ^ k` letters.
Every place is that of one bit of one symbol, so different bits spell different
texts, and every text over the alphabet is spelled by some bits.
-/

namespace DartUdp.Lib

variable {α : Type} {k n m : Nat}

/-- The first `size` bits. -/
def leadingBits (bytes : Vector UInt8 m) (size : Nat) (h : size ≤ 8 * m) : Fin size → Bool :=
  fun place => bytes[place.val / 8].toNat.testBit (7 - place % 8)

/-! ## Symbols -/

/-- Symbol `i`. Its highest bit comes first. -/
def symbolOf (bits : Fin (n * k) → Bool) (i : Fin n) : Fin (2 ^ k) :=
  ⟨Nat.ofBits fun j => bits (finProdFinEquiv (i, j.rev)), Nat.ofBits_lt_two_pow _⟩

theorem testBit_symbolOf (bits : Fin (n * k) → Bool) (i : Fin n) (j : Fin k) :
    (symbolOf bits i).val.testBit j = bits (finProdFinEquiv (i, j.rev)) :=
  Nat.testBit_ofBits_lt _ _ j.isLt

theorem symbolOf_injective : Function.Injective (symbolOf : (Fin (n * k) → Bool) → _) := by
  intro bits bits' h
  funext place
  obtain ⟨⟨i, j⟩, rfl⟩ := finProdFinEquiv.surjective place
  have hbit := testBit_symbolOf bits i j.rev
  rw [h, testBit_symbolOf, Fin.rev_rev] at hbit
  exact hbit.symm

theorem symbolOf_surjective : Function.Surjective (symbolOf : (Fin (n * k) → Bool) → _) := by
  intro symbols
  refine ⟨fun place => (symbols (finProdFinEquiv.symm place).1).val.testBit
    (finProdFinEquiv.symm place).2.rev, ?_⟩
  funext i
  refine Fin.ext ?_
  simp only [symbolOf, Equiv.symm_apply_apply, Fin.rev_rev]
  rw [Nat.ofBits_testBit, Nat.mod_eq_of_lt (symbols i).isLt]

/-! ## Texts -/

/-- The text that bits spell. -/
def spell (alphabet : Fin (2 ^ k) → α) (bits : Fin (n * k) → Bool) : List α :=
  List.ofFn fun i => alphabet (symbolOf bits i)

theorem spell_injective {alphabet : Fin (2 ^ k) → α} (h : Function.Injective alphabet) :
    Function.Injective (spell alphabet : (Fin (n * k) → Bool) → List α) := by
  intro bits bits' heq
  refine symbolOf_injective (funext fun i => h ?_)
  exact congrFun (List.ofFn_injective heq) i

theorem exists_spell {alphabet : Fin (2 ^ k) → α} {text : List α} (hlen : text.length = n)
    (hmem : ∀ letter ∈ text, letter ∈ Set.range alphabet) :
    ∃ bits : Fin (n * k) → Bool, spell alphabet bits = text := by
  subst hlen
  have hsymbol : ∀ i : Fin text.length, ∃ symbol, alphabet symbol = text.get i := fun i =>
    hmem _ (text.get_mem i)
  choose symbols hsymbols using hsymbol
  obtain ⟨bits, rfl⟩ := symbolOf_surjective symbols
  refine ⟨bits, ?_⟩
  rw [spell, funext hsymbols, List.ofFn_get]

/-- The texts over an alphabet are what bits spell, each by one string of bits. -/
theorem spell_bijOn {alphabet : Fin (2 ^ k) → α} (h : Function.Injective alphabet) :
    Set.BijOn (spell alphabet : (Fin (n * k) → Bool) → List α) Set.univ
      {text | text.length = n ∧ ∀ letter ∈ text, letter ∈ Set.range alphabet} := by
  refine ⟨fun bits _ => ⟨List.length_ofFn, fun letter hletter => ?_⟩,
    (spell_injective h).injOn, fun text htext => ?_⟩
  · obtain ⟨i, rfl⟩ := List.mem_ofFn.1 hletter
    exact Set.mem_range_self _
  · obtain ⟨bits, hbits⟩ := exists_spell htext.1 htext.2
    exact ⟨bits, Set.mem_univ _, hbits⟩

end DartUdp.Lib
