import Mathlib.Data.List.Nodup
import DartUdp.Lib.BitString
import DartUdp.Proofs.ControlFields

/-!
# Pairing codes carry all the bits they are drawn from

A symbol of a code is cut out of two bytes of the buffer, at a place that moves on by
five bits. The two bytes are read as one number of sixteen bits, and where the second
is missing no bit of it is asked for, since the buffer has a whole number of bytes that
is large enough for all the symbols. So bit for bit the symbol is the next five bits of
the buffer, and a code is what its leading bits spell over the alphabet.

The module is for `code_carries_bits`. `testBit_symbolAt` is one symbol,
`generateWithLen_spells` the code, and `parse_sameLetters` reads it in either case.
-/

namespace DartUdp.Protocol

open DartUdp.Lib

/-! ## The alphabet -/

/-- The letter for five bits. -/
def letter (symbol : Fin (2 ^ 5)) : UInt8 :=
  crockfordAlphabet.get (symbol.cast length_crockfordAlphabet.symm)

theorem letter_injective : Function.Injective letter := by
  have hnodup : crockfordAlphabet.Nodup := by decide +kernel
  exact (List.nodup_iff_injective_get.1 hnodup).comp (Fin.cast_injective _)

theorem mem_range_letter {byte : UInt8} : byte ∈ Set.range letter ↔ byte ∈ crockfordAlphabet := by
  refine ⟨?_, fun hbyte => ?_⟩
  · rintro ⟨symbol, rfl⟩
    exact List.get_mem _ _
  · obtain ⟨index, rfl⟩ := List.get_of_mem hbyte
    exact ⟨index.cast length_crockfordAlphabet, rfl⟩

/-! ## Symbols -/

/-- Two bytes as one number. -/
theorem testBit_pair (high low : UInt8) (j : Nat) :
    ((high.toNat <<< 8) ||| low.toNat).testBit j =
      if 8 ≤ j then high.toNat.testBit (j - 8) else low.toNat.testBit j := by
  rw [Nat.testBit_or, Nat.testBit_shiftLeft]
  by_cases hj : 8 ≤ j
  · have hlow : low.toNat.testBit j = false :=
      Nat.testBit_lt_two_pow (low.toNat_lt.trans_le (Nat.pow_le_pow_right (by decide) hj))
    simp [hj, hlow]
  · simp [hj]

section

variable {random : Vector UInt8 7} {byteLen index : Nat} {hindex : index < pairingCodeMaxLen}

/-- Bit `j` of a symbol is a bit of the buffer, the highest coming first. -/
theorem testBit_symbolAt {j place : Nat} (hj : j < 5) (hplace : place = index * 5 + (4 - j))
    (hlast : place / 8 < byteLen) (hbuffer : place / 8 < 7) :
    (PairingCode.symbolAt random byteLen index hindex).testBit j =
      random[place / 8].toNat.testBit (7 - place % 8) := by
  have hmask : (0x1f : Nat).testBit j = true := by
    rw [show 0x1f = 2 ^ 5 - 1 from rfl, Nat.testBit_two_pow_sub_one, decide_eq_true hj]
  unfold PairingCode.symbolAt
  rw [Nat.testBit_and, hmask, Bool.and_true, Nat.testBit_shiftRight]
  by_cases hfirst : place / 8 = index * 5 / 8
  · have hbit : 11 - index * 5 % 8 + j = 8 + (7 - place % 8) := by omega
    rw [hbit]
    simp only [hfirst]
    split
    · rw [testBit_pair, if_pos (by omega), Nat.add_sub_cancel_left]
    · rw [Nat.testBit_shiftLeft, decide_eq_true (by omega), Bool.true_and, Nat.add_sub_cancel_left]
  · have hsecond : place / 8 = index * 5 / 8 + 1 := by omega
    have hbit : 11 - index * 5 % 8 + j = 7 - place % 8 := by omega
    rw [hbit, if_pos (by omega), testBit_pair, if_neg (by omega)]
    simp only [hsecond]

end

section

variable {n m : Nat} {filled : Vector UInt8 m}

theorem getElem_buffer {i : Nat} (hi : i < m) (hbuffer : i < 7) :
    (PairingCode.buffer filled)[i] = filled[i] := by
  rw [PairingCode.buffer, Vector.getElem_ofFn]
  exact dif_pos hi

/-- A symbol is the next five bits of what was drawn. -/
theorem symbolAt_eq (hbits : n * 5 ≤ 8 * m) (hm : m ≤ 7) (i : Fin n)
    (hindex : i < pairingCodeMaxLen) :
    PairingCode.symbolAt (PairingCode.buffer filled) m i hindex =
      (symbolOf (leadingBits filled (n * 5) hbits) i).val := by
  refine Nat.eq_of_testBit_eq fun j => ?_
  by_cases hj : j < 5
  · have hplace : (finProdFinEquiv (i, Fin.rev ⟨j, hj⟩) : Fin (n * 5)).val = i * 5 + (4 - j) := by
      rw [finProdFinEquiv_apply_val, Fin.val_rev]
      dsimp only
      omega
    have hlast := (finProdFinEquiv (i, Fin.rev ⟨j, hj⟩) : Fin (n * 5)).isLt
    rw [testBit_symbolAt hj hplace (by omega) (by omega), getElem_buffer (by omega)]
    exact (testBit_symbolOf (leadingBits filled (n * 5) hbits) i ⟨j, hj⟩).symm
  · have hhigh : ∀ symbol, symbol < 2 ^ 5 → symbol.testBit j = false := fun symbol hsymbol =>
      Nat.testBit_lt_two_pow (hsymbol.trans_le (Nat.pow_le_pow_right (by decide) (Nat.not_lt.1 hj)))
    rw [hhigh _ (PairingCode.symbolAt_lt.trans_eq length_crockfordAlphabet), hhigh _ (Fin.isLt _)]

/-- A code is what the first bits of what was drawn spell. -/
theorem generateWithLen_spells {fill : (len : Nat) → Option (Vector UInt8 len)}
    (hmin : pairingCodeMinLen ≤ n) (hmax : n ≤ pairingCodeMaxLen)
    {filled : Vector UInt8 ((n * 5 + 7) / 8)} (hfill : fill ((n * 5 + 7) / 8) = some filled) :
    ∃ code, PairingCode.generateWithLen fill n = .ok code ∧
      code.bytes = spell letter (leadingBits filled (n * 5) (by omega)) := by
  have hbuffer : (n * 5 + 7) / 8 ≤ 7 := by
    unfold pairingCodeMaxLen at hmax
    omega
  unfold PairingCode.generateWithLen
  rw [dif_pos ⟨hmin, hmax⟩]
  simp only [hfill]
  refine ⟨_, rfl, congrArg List.ofFn (funext fun i => ?_)⟩
  exact congrArg crockfordAlphabet.get (Fin.ext (symbolAt_eq _ hbuffer i (i.isLt.trans_le hmax)))

/-- A code is read back in any case of its letters. -/
theorem parse_sameLetters {code : PairingCode} {text : Bytes} (h : SameLetters text code) :
    PairingCode.parse text = .ok code := by
  have hlength : text.length = code.bytes.length := by rw [← h, List.length_map]
  have hletters : text.all (toAsciiUppercase · ∈ crockfordAlphabet) = true := by
    refine List.all_eq_true.2 fun byte hbyte => decide_eq_true (code.symbols _ ?_)
    rw [← h]
    exact List.mem_map_of_mem hbyte
  rw [PairingCode.parse, dif_pos ⟨hlength ▸ ⟨code.minLen, code.maxLen⟩, hletters⟩]
  exact congrArg Except.ok (PairingCode.ext h)

/-- The first `5 * n` bits of what is drawn for a code of `n` symbols and the texts of
`n` letters correspond one to one: the code is the text for the bits, whatever follows
them in the buffer. It is read back from that text in any case of its letters. -/
theorem code_carries_bits (hmin : pairingCodeMinLen ≤ n) (hmax : n ≤ pairingCodeMaxLen) :
    ∃ textOf : (Fin (n * 5) → Bool) → Bytes,
      Set.BijOn textOf Set.univ
        {text | text.length = n ∧ ∀ byte ∈ text, byte ∈ crockfordAlphabet} ∧
      ∀ (fill : (len : Nat) → Option (Vector UInt8 len))
        (filled : Vector UInt8 ((n * 5 + 7) / 8)), fill ((n * 5 + 7) / 8) = some filled →
        ∃ code, PairingCode.generateWithLen fill n = .ok code ∧
          code.bytes = textOf (leadingBits filled (n * 5) (by omega)) ∧
          ∀ text, SameLetters text code → PairingCode.parse text = .ok code := by
  refine ⟨spell letter, ?_, fun fill filled hfill => ?_⟩
  · have hbij := spell_bijOn (n := n) letter_injective
    simpa only [mem_range_letter] using hbij
  · obtain ⟨code, hcode, hbytes⟩ := generateWithLen_spells hmin hmax hfill
    exact ⟨code, hcode, hbytes, fun text => parse_sameLetters⟩

/-- A source of random bytes that counts up. -/
def sampleFill (len : Nat) : Option (Vector UInt8 len) :=
  some (.ofFn fun i => (i.val * 77 + 200).toUInt8)

/-- The last of nine symbols is cut out of the last byte alone. -/
theorem code_carries_bits_sample : ∃ code, PairingCode.generateWithLen sampleFill 9 = .ok code ∧
    code.bytes = ascii "S0AP5BZW9" ∧ PairingCode.parse (ascii "s0aP5bzW9") = .ok code := by
  obtain ⟨textOf, -, hcodes⟩ := code_carries_bits (n := 9) (by decide) (by decide)
  obtain ⟨code, hcode, -, hparse⟩ := hcodes sampleFill _ rfl
  have heval : (PairingCode.generateWithLen sampleFill 9).map PairingCode.bytes =
      .ok (ascii "S0AP5BZW9") := by
    decide +kernel
  rw [hcode] at heval
  have hbytes : code.bytes = ascii "S0AP5BZW9" := Except.ok.inj heval
  refine ⟨code, hcode, hbytes, hparse _ ?_⟩
  rw [SameLetters, hbytes]
  decide +kernel

end

end DartUdp.Protocol
