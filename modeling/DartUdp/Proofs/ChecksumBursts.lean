import DartUdp.Lib.Cyclic
import DartUdp.Proofs.CodecPackets

/-!
# The checksum detects short bursts

The checksum is a register of 32 bits that takes the bytes in one by one, and four
bytes have room in it side by side. So two datagrams that differ within four bytes
only leave different words in it, however long they are and wherever the four bytes
stand. The checksum of the one is then not the checksum of the other, and where the
field that holds it has not been touched the datagram is refused.

The module is for `burst_detected`. `foldl_crcByte_unique` says that the register
tells two datagrams apart that differ within four bytes, and `crc32c_unique` the
same of the whole checksum; `decodeHeader_checksum` reads the field it is compared
with.
-/

namespace DartUdp.Udp

open DartUdp.Lib

section

variable {bytes bytes' : Bytes} {start len zeroStart zeroEnd : Nat}

/-! ## The checksum as a register -/

theorem zeroed_sameOutside (h : SameOutside start len bytes bytes') (zeroStart zeroEnd : Nat) :
    SameOutside start len (zeroed bytes zeroStart zeroEnd) (zeroed bytes' zeroStart zeroEnd) := by
  refine ⟨by simpa only [zeroed, List.length_mapIdx] using h.1, fun i hi => ?_⟩
  rw [zeroed, zeroed, List.getElem?_mapIdx, List.getElem?_mapIdx, h.2 i hi]

/-- What is not zeroed is still there. -/
theorem getElem?_zeroed {i : Nat} (hi : ¬ (zeroStart ≤ i ∧ i < zeroEnd)) :
    (zeroed bytes zeroStart zeroEnd)[i]? = bytes[i]? := by
  rw [zeroed, List.getElem?_mapIdx]
  simp only [if_neg hi, Option.map_id']

def crc32cRegister : Register where
  width := 32
  taps := crc32cPolynomial
  bound := by decide
  odd := by decide

/-- The bytes go into the register one by one. -/
theorem foldl_crcByte (bytes : Bytes) (checksum : Nat) :
    bytes.foldl crcByte checksum =
      (bytes.map UInt8.toNat).foldl (crc32cRegister.feed 8) checksum := by
  rw [List.foldl_map]
  rfl

theorem foldl_crcByte_unique {checksum : Nat} (h : SameOutside start len bytes bytes')
    (hshort : len ≤ 4) (hchecksum : checksum < 2 ^ 32)
    (heq : bytes.foldl crcByte checksum = bytes'.foldl crcByte checksum) : bytes = bytes' := by
  have hbytes : ∀ (x : Bytes), ∀ symbol ∈ x.map UInt8.toNat, symbol < 2 ^ 8 := by
    intro x symbol hmem
    obtain ⟨byte, _, rfl⟩ := List.mem_map.1 hmem
    exact byte.toNat_lt
  have hfit : 8 * len ≤ crc32cRegister.width := Nat.mul_le_mul_left 8 hshort
  rw [foldl_crcByte, foldl_crcByte] at heq
  have hsame := Register.window_unique (by decide) (by decide) (hbytes bytes) (hbytes bytes')
    (h.map UInt8.toNat) hfit hchecksum heq
  exact List.map_injective_iff.2 (fun _ _ h => UInt8.toNat_inj.1 h) hsame

/-- Equal checksums of bytes that are the same but for four of them, none of them
zeroed: these are the same too. -/
theorem crc32c_unique (h : SameOutside start len bytes bytes') (hshort : len ≤ 4)
    (hoff : start + len ≤ zeroStart ∨ zeroEnd ≤ start)
    (heq : crc32cWithZeroedRange bytes zeroStart zeroEnd =
      crc32cWithZeroedRange bytes' zeroStart zeroEnd) : bytes = bytes' := by
  have hzeroed := foldl_crcByte_unique (zeroed_sameOutside h zeroStart zeroEnd) hshort
    (by decide) (Nat.xor_right_injective heq)
  refine List.ext_getElem? fun i => ?_
  by_cases hi : zeroStart ≤ i ∧ i < zeroEnd
  · exact (h.2 i (by omega)).symm
  · rw [← getElem?_zeroed hi, hzeroed, getElem?_zeroed hi]

end

/-! ## Datagrams -/

section

variable {p : Packet} {bytes bytes' : Bytes} {limit start len : Nat}

/-- The field of the checksum. -/
theorem decodeHeader_checksum {header : PacketHeader} (h : decodeHeader bytes = .ok header) :
    header.checksum = fieldAt bytes 26 4 := by
  obtain ⟨_, h⟩ := ok_of_guard h
  obtain ⟨_, h⟩ := ok_of_guard h
  obtain ⟨_, _, h⟩ := ok_of_bind h
  obtain ⟨_, _, h⟩ := ok_of_bind h
  obtain ⟨_, h⟩ := ok_of_guard h
  obtain rfl := Except.ok.inj h
  rfl

/-- What is decoded carries its own checksum. -/
theorem decodePacket_checksum (h : decodePacket bytes limit = .ok p) :
    crc32cWithZeroedRange bytes 26 30 = fieldAt bytes 26 4 := by
  obtain ⟨header, hheader, h⟩ := ok_of_bind h
  obtain ⟨_, h⟩ := ok_of_guard h
  obtain ⟨_, hverify, -⟩ := ok_of_bind h
  obtain ⟨_, _, hheader⟩ := ok_of_bind hheader
  obtain ⟨_, hheader⟩ := ok_of_guard hheader
  obtain ⟨_, hheader⟩ := ok_of_guard hheader
  obtain ⟨header', hfields, hheader⟩ := ok_of_bind hheader
  obtain ⟨_, hheader⟩ := ok_of_guard hheader
  obtain rfl : header' = header := Except.ok.inj hheader
  have hsum := not_not.1 (ok_of_guard hverify).1
  rw [hsum, decodeHeader_checksum hfields]

/-- So does what is encoded. -/
theorem encodePacket_checksum (h : encodePacket p limit = .ok bytes) :
    crc32cWithZeroedRange bytes 26 30 = fieldAt bytes 26 4 := by
  obtain ⟨_, payload, _, _, rfl⟩ := encodePacket_inv h
  obtain ⟨front, hfront, hsplit⟩ := datagram_split p.packetType p.flags p.connectionId
    p.packetNumber payload.length
  rw [stamp_datagram, crc32c_datagram (length_beBytes ..)]
  generalize hsum : crc32cWithZeroedRange _ 26 30 = sum
  have hlt : sum < 256 ^ 4 := hsum ▸ crc32c_lt _
  rw [hsplit, fieldAt, List.drop_left' hfront, List.take_left' (length_beBytes 4 sum), ofBe_beBytes,
    Nat.mod_eq_of_lt hlt]

/-- A datagram that was encoded is refused once it has been changed within four bytes
in a row, none of them of the checksum. -/
theorem burst_detected (hencode : encodePacket p limit = .ok bytes)
    (hlength : bytes'.length = bytes.length) (hshort : len ≤ 4)
    (hoff : start + len ≤ 26 ∨ 30 ≤ start)
    (hsame : ∀ i, i < start ∨ start + len ≤ i → bytes'[i]? = bytes[i]?) (hne : bytes' ≠ bytes) :
    ∃ error, decodePacket bytes' limit = .error error := by
  have hwindow : SameOutside start len bytes bytes' := ⟨hlength, hsame⟩
  cases hdecode : decodePacket bytes' limit with
  | error error => exact ⟨error, rfl⟩
  | ok packet =>
      have hfield : fieldAt bytes' 26 4 = fieldAt bytes 26 4 :=
        congrArg ofBe (hwindow.part 26 4 hoff)
      have hsums : crc32cWithZeroedRange bytes 26 30 = crc32cWithZeroedRange bytes' 26 30 := by
        rw [encodePacket_checksum hencode, decodePacket_checksum hdecode, hfield]
      exact absurd (crc32c_unique hwindow hshort hoff hsums).symm hne

/-- The sample packet as it goes out. -/
def sampleBytes : Bytes :=
  [215, 241, 2, 2, 0, 1, 0, 30, 0, 0, 0, 0, 0, 0, 0, 7, 0, 0, 0, 0, 0, 0, 0, 2, 0, 19, 37, 115, 34,
    28, 4, 7, 4, 1, 2, 3, 4, 0, 1, 10, 8, 0, 0, 0, 0, 0, 0, 0, 5]

/-- The delay of its acknowledgement and the end of the first range are changed. -/
theorem burst_detected_sample : ∃ error,
    decodePacket ((sampleBytes.set 33 2).set 36 5) 1200 = .error error := by
  have hencode : encodePacket samplePacket 1200 = .ok sampleBytes := by decide +kernel
  refine burst_detected hencode rfl (le_refl 4) (.inr (show 30 ≤ 33 by decide)) (fun i hi => ?_)
    (by decide)
  rw [List.getElem?_set_ne (by omega), List.getElem?_set_ne (by omega)]

end

end DartUdp.Udp
