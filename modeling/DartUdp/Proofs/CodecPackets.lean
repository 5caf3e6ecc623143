import DartUdp.Proofs.CodecFrames

/-!
# Packets survive being written and read

A datagram is its header and its payload, with the checksum put into the header
last. Both ways of writing one end in the same bytes: the fields of the header,
the checksum and the payload. So the header is read back once, for plain and for
sealed datagrams, and so is the checksum, which does not depend on the four
bytes it is put into.

The module is for `codec_round_trip` and `codec_image`. `decodeHeader_datagram`
reads the header back and `crc32c_datagram` the checksum; `encodePacket_reads` adds
the frames for the one, and `decodePacket_written` goes the other way for the other.
-/

namespace DartUdp.Udp

open DartUdp.Lib

/-! ## The frames of a payload -/

theorem writeFrames_reads {frames : List Frame} {out : Bytes} {room : Nat}
    (typed : ∀ f ∈ frames, f.Typed) (hroom : frames.length ≤ room)
    (h : writeFrames frames = .ok out) :
    readFrames room out = .ok (frames.map Frame.truncated, []) := by
  induction frames generalizing out room with
  | nil =>
      obtain rfl : [] = out := Except.ok.inj h
      cases room with
      | zero => rfl
      | succ room => rfl
  | cons f frames ih =>
      obtain ⟨first, hfirst, h⟩ := ok_of_bind h
      obtain ⟨rest, hrest, hout⟩ := ok_of_bind h
      obtain rfl : _ = out := Except.ok.inj hout
      obtain ⟨room, rfl⟩ : ∃ n, room = n + 1 :=
        ⟨room - 1, by simp only [List.length_cons] at hroom; omega⟩
      obtain ⟨body, len, _, _, _, hshape⟩ := Frame.encode_inv hfirst
      have hread := Frame.encode_reads (typed f List.mem_cons_self) hfirst
      have hmore := ih (fun g hg => typed g (List.mem_cons_of_mem f hg))
        (Nat.le_of_succ_le_succ hroom) hrest
      rw [hshape, List.cons_append, readFrames_cons, ← List.cons_append, ← hshape,
        decoder_bind (hread rest), decoder_bind hmore]
      rfl

/-- What is read as the frames of a payload is written in no more bytes. -/
theorem readFrames_written {room : Nat} {s s' : Bytes} {frames : List Frame}
    (h : readFrames room s = .ok (frames, s')) :
    (∀ f ∈ frames, f.Typed ∧ f.truncated = f) ∧ frames.length ≤ room ∧
      Shrinks (writeFrames frames) s := by
  induction room generalizing s s' frames with
  | zero =>
      cases s with
      | nil =>
          cases h
          exact ⟨fun f hf => (List.not_mem_nil hf).elim, le_rfl, [], rfl, le_rfl⟩
      | cons frameType s => cases h
  | succ room ih =>
      cases s with
      | nil =>
          cases h
          exact ⟨fun f hf => (List.not_mem_nil hf).elim, Nat.zero_le _, [], rfl, le_rfl⟩
      | cons frameType s =>
          rw [readFrames_cons] at h
          obtain ⟨f, rest, hf, h⟩ := decoder_bind_inv h
          obtain ⟨more, rest', hmore, h⟩ := decoder_bind_inv h
          cases h
          obtain ⟨used, hused, typed, same, first, hfirst, hshort⟩ := readFrame_takes _ _ _ hf
          obtain ⟨hall, hroom, out, hout, hle⟩ := ih hmore
          refine ⟨?_, Nat.succ_le_succ hroom, first ++ out, ?_, ?_⟩
          · intro g hg
            rcases List.mem_cons.1 hg with rfl | hg
            · exact ⟨typed, same⟩
            · exact hall g hg
          · rw [writeFrames, bind_of_ok hfirst, bind_of_ok hout]
            rfl
          · rw [hused, List.length_append, List.length_append]
            omega

/-! ## Packets -/

/-- The fields of a packet are in the range of the source's types. -/
structure Packet.Typed (p : Packet) : Prop where
  flags : p.flags.bits < 2 ^ 16
  known : PacketFlags.fromBits p.flags.bits = .ok p.flags
  connection : p.connectionId < 2 ^ 64
  number : p.packetNumber < 2 ^ 64
  frames : ∀ f ∈ p.frames, f.Typed

/-- The packet as it arrives. -/
def Packet.truncated (p : Packet) : Packet := { p with frames := p.frames.map Frame.truncated }

section

variable {p : Packet} {payload : Bytes} {e : ProtocolError} {frames : List Frame}

theorem encodeFrames_inv (h : encodeFrames p = .ok payload) :
    p.frames ≠ [] ∧ p.frames.length ≤ maxFrameCount ∧ writeFrames p.frames = .ok payload ∧
      payload.length ≤ 0xffff := by
  obtain ⟨hempty, h⟩ := ok_of_guard h
  obtain ⟨hcount, h⟩ := ok_of_guard h
  obtain ⟨out, hout, h⟩ := ok_of_bind h
  obtain ⟨hlen, h⟩ := ok_of_guard h
  obtain rfl : out = payload := Except.ok.inj h
  exact ⟨fun hnil => hempty (by rw [hnil]; rfl), Nat.not_lt.1 hcount, hout, Nat.not_lt.1 hlen⟩

theorem encodeFrames_of (hempty : p.frames ≠ []) (hcount : p.frames.length ≤ maxFrameCount)
    (hwrite : writeFrames p.frames = .ok payload) (hlen : payload.length ≤ 0xffff) :
    encodeFrames p = .ok payload := by
  have hfalse : ¬ p.frames.isEmpty = true := by simpa using hempty
  rw [encodeFrames]
  dsimp only
  rw [if_neg hfalse, if_neg (Nat.not_lt.2 hcount), bind_of_ok hwrite, if_neg (Nat.not_lt.2 hlen)]
  rfl

/-- The frames come back from the payload. -/
theorem decodeFrames_of_encode (typed : ∀ f ∈ p.frames, f.Typed)
    (h : encodeFrames p = .ok payload) :
    decodeFrames payload = .ok (p.frames.map Frame.truncated) := by
  obtain ⟨hempty, hcount, hwrite, -⟩ := encodeFrames_inv h
  have hfalse : ¬ (p.frames.map Frame.truncated).isEmpty = true := by simpa using hempty
  rw [decodeFrames, bind_of_ok (writeFrames_reads typed hcount hwrite)]
  dsimp only
  rw [if_neg hfalse]
  rfl

theorem decodeFrames_written (h : decodeFrames payload = .ok frames) :
    frames ≠ [] ∧ (∀ f ∈ frames, f.Typed ∧ f.truncated = f) ∧ frames.length ≤ maxFrameCount ∧
      Shrinks (writeFrames frames) payload := by
  obtain ⟨⟨read, rest⟩, hread, h⟩ := ok_of_bind h
  obtain ⟨hempty, h⟩ := ok_of_guard h
  obtain rfl : read = frames := Except.ok.inj h
  exact ⟨fun hnil => hempty (by rw [hnil]; rfl), readFrames_written hread⟩

end

/-! ## The header -/

/-- The bytes of a datagram: the fields of the header, the checksum and the
payload. -/
def datagram (packetType : PacketType) (flags : PacketFlags)
    (connectionId packetNumber payloadLen : Nat) (checksum payload : Bytes) : Bytes :=
  beBytes 2 magic ++ (beBytes 1 version ++ (beBytes 1 packetType.code ++ (beBytes 2 flags.bits ++
    (beBytes 2 fixedHeaderLen ++ (beBytes 8 connectionId ++ (beBytes 8 packetNumber ++
    (beBytes 2 payloadLen ++ (checksum ++ payload))))))))

section

variable {packetType : PacketType} {flags : PacketFlags} {id number len : Nat}
  {checksum payload bytes : Bytes} {limit : Nat}

theorem headerBytes_append : headerBytes packetType flags id number len ++ payload =
    datagram packetType flags id number len [0, 0, 0, 0] payload := by
  simp only [headerBytes, datagram, List.append_assoc]

theorem length_datagram (packetType : PacketType) (flags : PacketFlags) (id number len : Nat)
    (payload : Bytes) (hsum : checksum.length = 4) :
    (datagram packetType flags id number len checksum payload).length =
      fixedHeaderLen + payload.length := by
  simp only [datagram, List.length_append, length_beBytes, hsum, fixedHeaderLen]
  omega

/-- The part of a datagram before the checksum. -/
theorem datagram_split (packetType : PacketType) (flags : PacketFlags) (id number len : Nat) :
    ∃ front : Bytes, front.length = 26 ∧ ∀ checksum payload,
      datagram packetType flags id number len checksum payload =
        front ++ (checksum ++ payload) := by
  refine ⟨beBytes 2 magic ++ (beBytes 1 version ++ (beBytes 1 packetType.code ++
    (beBytes 2 flags.bits ++ (beBytes 2 fixedHeaderLen ++ (beBytes 8 id ++ (beBytes 8 number ++
    beBytes 2 len)))))), ?_, fun checksum payload => ?_⟩
  · simp only [List.length_append, length_beBytes]
  · simp only [datagram, List.append_assoc]

theorem drop_datagram (hsum : checksum.length = 4) :
    (datagram packetType flags id number len checksum payload).drop fixedHeaderLen = payload := by
  obtain ⟨front, hfront, hsplit⟩ := datagram_split packetType flags id number len
  rw [hsplit, ← List.append_assoc]
  exact List.drop_left' (by rw [List.length_append, hfront, hsum]; rfl)

theorem take_datagram (hsum : checksum.length = 4) :
    (datagram packetType flags id number len checksum payload).take fixedHeaderLen =
      datagram packetType flags id number len checksum [] := by
  obtain ⟨front, hfront, hsplit⟩ := datagram_split packetType flags id number len
  rw [hsplit, hsplit, ← List.append_assoc, List.append_nil]
  exact List.take_left' (by rw [List.length_append, hfront, hsum]; rfl)

theorem stamp_datagram :
    stamp (datagram packetType flags id number len [0, 0, 0, 0] payload) =
      datagram packetType flags id number len (beBytes 4 (crc32cWithZeroedRange
        (datagram packetType flags id number len [0, 0, 0, 0] payload) 26 30)) payload := by
  obtain ⟨front, hfront, hsplit⟩ := datagram_split packetType flags id number len
  rw [stamp, hsplit, hsplit, List.take_left' hfront, ← List.append_assoc front [0, 0, 0, 0] payload,
    List.drop_left' (by rw [List.length_append, hfront]; rfl), List.append_assoc]

/-! ### Reading the header -/

theorem fieldAt_be_skip {k v start n : Nat} {rest : Bytes} (h : k ≤ start) :
    fieldAt (beBytes k v ++ rest) start n = fieldAt rest (start - k) n := by
  have hdrop : (beBytes k v).drop start = [] := List.drop_eq_nil_iff.2 (by simpa using h)
  rw [fieldAt, fieldAt, List.drop_append, hdrop, length_beBytes, List.nil_append]

theorem fieldAt_be {n v : Nat} {rest : Bytes} (h : v < 256 ^ n) :
    fieldAt (beBytes n v ++ rest) 0 n = v := by
  rw [fieldAt, List.drop_zero, List.take_left' (length_beBytes n v), ofBe_beBytes,
    Nat.mod_eq_of_lt h]

theorem tryFrom_code (packetType : PacketType) :
    PacketType.tryFrom packetType.code = .ok packetType := by
  cases packetType <;> rfl

theorem code_lt (packetType : PacketType) : packetType.code < 256 := by
  cases packetType <;> decide

theorem decodeHeader_datagram {sum : Nat} (hbits : flags.bits < 2 ^ 16)
    (hknown : PacketFlags.fromBits flags.bits = .ok flags) (hid : id < 2 ^ 64)
    (hnumber : number < 2 ^ 64) (hlen : len < 2 ^ 16) (hsum : sum < 2 ^ 32) :
    decodeHeader (datagram packetType flags id number len (beBytes 4 sum) payload) =
      .ok ⟨version, packetType, flags, fixedHeaderLen, id, number, len, sum⟩ := by
  generalize hbytes : datagram packetType flags id number len (beBytes 4 sum) payload = bytes
  have hmagic : fieldAt bytes 0 2 = magic := by
    rw [← hbytes, datagram, fieldAt_be (by decide)]
  have hversion : fieldAt bytes 2 1 = version := by
    rw [← hbytes, datagram, fieldAt_be_skip (by decide), fieldAt_be (by decide)]
  have htype : fieldAt bytes 3 1 = packetType.code := by
    rw [← hbytes, datagram]
    iterate 2 rw [fieldAt_be_skip (by decide)]
    exact fieldAt_be (code_lt packetType)
  have hflags : fieldAt bytes 4 2 = flags.bits := by
    rw [← hbytes, datagram]
    iterate 3 rw [fieldAt_be_skip (by decide)]
    exact fieldAt_be hbits
  have hheader : fieldAt bytes 6 2 = fixedHeaderLen := by
    rw [← hbytes, datagram]
    iterate 4 rw [fieldAt_be_skip (by decide)]
    exact fieldAt_be (by decide)
  have hconnection : fieldAt bytes 8 8 = id := by
    rw [← hbytes, datagram]
    iterate 5 rw [fieldAt_be_skip (by decide)]
    exact fieldAt_be hid
  have hpacket : fieldAt bytes 16 8 = number := by
    rw [← hbytes, datagram]
    iterate 6 rw [fieldAt_be_skip (by decide)]
    exact fieldAt_be hnumber
  have hpayload : fieldAt bytes 24 2 = len := by
    rw [← hbytes, datagram]
    iterate 7 rw [fieldAt_be_skip (by decide)]
    exact fieldAt_be hlen
  have hchecksum : fieldAt bytes 26 4 = sum := by
    rw [← hbytes, datagram]
    iterate 8 rw [fieldAt_be_skip (by decide)]
    exact fieldAt_be hsum
  rw [decodeHeader]
  dsimp only
  rw [hmagic, if_neg (by simp), hversion, if_neg (by simp), htype, bind_of_ok (tryFrom_code _),
    hflags, bind_of_ok hknown, hheader, if_neg (by simp), hconnection, hpacket, hpayload, hchecksum]
  rfl

/-- A datagram within its limit is taken apart into its fields. -/
theorem decodeHeaderAndLengths_datagram {sum : Nat} (hbits : flags.bits < 2 ^ 16)
    (hknown : PacketFlags.fromBits flags.bits = .ok flags) (hid : id < 2 ^ 64)
    (hnumber : number < 2 ^ 64) (hpayload : payload.length < 2 ^ 16) (hsum : sum < 2 ^ 32)
    (hlimit : fixedHeaderLen + payload.length ≤ limit) :
    decodeHeaderAndLengths
      (datagram packetType flags id number payload.length (beBytes 4 sum) payload) limit =
      .ok ⟨version, packetType, flags, fixedHeaderLen, id, number, payload.length, sum⟩ := by
  have hlength := length_datagram packetType flags id number payload.length payload
    (length_beBytes 4 sum)
  have hvalid : validateDatagramLimit limit = .ok () := if_neg (by omega)
  rw [decodeHeaderAndLengths, bind_of_ok hvalid]
  dsimp only
  rw [hlength, if_neg (by omega), if_neg (by omega),
    bind_of_ok (decodeHeader_datagram hbits hknown hid hnumber hpayload hsum)]
  dsimp only
  rw [if_neg (by simp)]
  rfl

/-- The header of whatever was accepted. -/
theorem decodeHeaderAndLengths_inv {header : PacketHeader}
    (h : decodeHeaderAndLengths bytes limit = .ok header) :
    bytes.length ≤ limit ∧ header.headerLen = fixedHeaderLen ∧
      bytes.length = fixedHeaderLen + header.payloadLen ∧ header.payloadLen < 2 ^ 16 ∧
      header.flags.bits < 2 ^ 16 ∧ PacketFlags.fromBits header.flags.bits = .ok header.flags ∧
      header.connectionId < 2 ^ 64 ∧ header.packetNumber < 2 ^ 64 := by
  have hfield : ∀ start n, fieldAt bytes start n < 256 ^ n := by
    intro start n
    refine (ofBe_lt _).trans_le (Nat.pow_le_pow_right (by decide) ?_)
    rw [List.length_take]
    exact Nat.min_le_left _ _
  obtain ⟨_, _, h⟩ := ok_of_bind h
  obtain ⟨hshort, h⟩ := ok_of_guard h
  obtain ⟨hlong, h⟩ := ok_of_guard h
  obtain ⟨header', hheader, h⟩ := ok_of_bind h
  obtain ⟨hlengths, h⟩ := ok_of_guard h
  obtain rfl : header' = header := Except.ok.inj h
  obtain ⟨_, hheader⟩ := ok_of_guard hheader
  obtain ⟨_, hheader⟩ := ok_of_guard hheader
  obtain ⟨packetType, _, hheader⟩ := ok_of_bind hheader
  obtain ⟨flags, hflags, hheader⟩ := ok_of_bind hheader
  obtain ⟨hlen, hheader⟩ := ok_of_guard hheader
  obtain rfl := Except.ok.inj hheader
  obtain ⟨_, hbits⟩ := ok_of_guard hflags
  obtain rfl : _ = flags := Except.ok.inj hbits
  have hlen := not_not.1 hlen
  have hlengths := not_not.1 hlengths
  dsimp only at hlengths ⊢
  have hpayload := hfield 24 2
  refine ⟨Nat.not_lt.1 hlong, hlen, ?_, hpayload, hfield 4 2, hflags, hfield 8 8, hfield 16 8⟩
  rw [hlen] at hlengths
  omega

/-! ### The checksum -/

theorem zeroed_middle {a b c : Bytes} {m k : Nat} (ha : a.length = m) (hb : b.length = k) :
    zeroed (a ++ (b ++ c)) m (m + k) = a ++ (List.replicate k 0 ++ c) := by
  subst ha hb
  refine List.ext_getElem (by simp [zeroed]) fun i h1 h2 => ?_
  simp only [zeroed, List.getElem_mapIdx]
  by_cases hfront : i < a.length
  · rw [if_neg (by omega), List.getElem_append_left hfront, List.getElem_append_left hfront]
  · rw [List.getElem_append_right (Nat.not_lt.1 hfront),
      List.getElem_append_right (Nat.not_lt.1 hfront)]
    by_cases hmiddle : i - a.length < b.length
    · rw [if_pos (by omega), List.getElem_append_left (by simpa using hmiddle),
        List.getElem_replicate]
    · rw [if_neg (by omega), List.getElem_append_right (Nat.not_lt.1 hmiddle),
        List.getElem_append_right (by simpa using hmiddle)]
      simp only [List.length_replicate]

/-- The bytes of the checksum do not count. -/
theorem zeroed_datagram (hsum : checksum.length = 4) :
    zeroed (datagram packetType flags id number len checksum payload) 26 30 =
      datagram packetType flags id number len [0, 0, 0, 0] payload := by
  obtain ⟨front, hfront, hsplit⟩ := datagram_split packetType flags id number len
  rw [hsplit, hsplit]
  exact zeroed_middle hfront hsum

theorem crc32c_datagram (hsum : checksum.length = 4) :
    crc32cWithZeroedRange (datagram packetType flags id number len checksum payload) 26 30 =
      crc32cWithZeroedRange
        (datagram packetType flags id number len [0, 0, 0, 0] payload) 26 30 := by
  rw [crc32cWithZeroedRange, crc32cWithZeroedRange, zeroed_datagram hsum, zeroed_datagram rfl]

theorem crcByte_lt {sum : Nat} (h : sum < 2 ^ 32) (byte : UInt8) : crcByte sum byte < 2 ^ 32 := by
  have hbit : ∀ n, n < 2 ^ 32 → crcBit n < 2 ^ 32 := by
    intro n hn
    have hhalf : n >>> 1 < 2 ^ 32 := by
      rw [Nat.shiftRight_eq_div_pow]
      omega
    unfold crcBit
    split
    · exact Nat.xor_lt_two_pow hhalf (by decide)
    · exact hhalf
  have hstart : sum ^^^ byte.toNat < 2 ^ 32 :=
    Nat.xor_lt_two_pow h (byte.toNat_lt.trans (by decide))
  exact Function.Iterate.rec (fun n => n < 2 ^ 32) hstart (fun n hn => hbit n hn) 8

theorem crc32c_lt (bytes : Bytes) : crc32cWithZeroedRange bytes 26 30 < 2 ^ 32 := by
  have hfold : ∀ (bytes : Bytes) sum, sum < 2 ^ 32 → bytes.foldl crcByte sum < 2 ^ 32 := by
    intro bytes
    induction bytes with
    | nil => exact fun sum hsum => hsum
    | cons byte bytes ih => exact fun sum hsum => ih _ (crcByte_lt hsum byte)
  exact Nat.xor_lt_two_pow (by decide) (hfold _ _ (by decide))

end

/-! ## Plain packets -/

section

variable {p : Packet} {bytes : Bytes} {limit : Nat}

theorem encodePacket_inv (h : encodePacket p limit = .ok bytes) :
    p.flags.contains encryptedFlag = false ∧ ∃ payload, encodeFrames p = .ok payload ∧
      fixedHeaderLen + payload.length ≤ limit ∧
      bytes = stamp (datagram p.packetType p.flags p.connectionId p.packetNumber payload.length
        [0, 0, 0, 0] payload) := by
  obtain ⟨hflag, h⟩ := ok_of_guard h
  obtain ⟨payload, hpayload, h⟩ := ok_of_bind h
  obtain ⟨_, _, h⟩ := ok_of_bind h
  obtain ⟨_, hsize, h⟩ := ok_of_bind h
  refine ⟨by simpa using hflag, payload, hpayload, Nat.not_lt.1 (ok_of_guard hsize).1, ?_⟩
  rw [← headerBytes_append]
  exact (Except.ok.inj h).symm

theorem encodePacket_of {payload : Bytes} (hflag : p.flags.contains encryptedFlag = false)
    (hpayload : encodeFrames p = .ok payload) (hlimit : fixedHeaderLen + payload.length ≤ limit) :
    encodePacket p limit = .ok (stamp (datagram p.packetType p.flags p.connectionId p.packetNumber
      payload.length [0, 0, 0, 0] payload)) := by
  have hvalid : validateDatagramLimit limit = .ok () := if_neg (by omega)
  have hsize : ensureDatagramSize (fixedHeaderLen + payload.length) limit = .ok () :=
    if_neg (by omega)
  have hfalse : ¬ p.flags.contains encryptedFlag = true := by simp [hflag]
  rw [encodePacket]
  dsimp only
  rw [if_neg hfalse, bind_of_ok hpayload, encodeRawPacket, bind_of_ok hvalid, bind_of_ok hsize,
    headerBytes_append]
  rfl

/-- A packet goes out in clear with its payload behind the header. -/
theorem encodePacket_length {payload : Bytes} (hflag : p.flags.contains encryptedFlag = false)
    (hpayload : encodeFrames p = .ok payload) (hlimit : fixedHeaderLen + payload.length ≤ limit) :
    ∃ bytes, encodePacket p limit = .ok bytes ∧
      bytes.length = fixedHeaderLen + payload.length := by
  refine ⟨_, encodePacket_of hflag hpayload hlimit, ?_⟩
  rw [stamp_datagram, length_datagram _ _ _ _ _ _ (length_beBytes ..)]

theorem encodeFrames_ne_nil {payload : Bytes} (h : encodeFrames p = .ok payload) :
    payload ≠ [] := by
  obtain ⟨hempty, _, hwrite, -⟩ := encodeFrames_inv h
  obtain ⟨f, frames, hframes⟩ := List.exists_cons_of_ne_nil hempty
  rw [hframes] at hwrite
  obtain ⟨first, hfirst, hwrite⟩ := ok_of_bind hwrite
  obtain ⟨rest, _, hout⟩ := ok_of_bind hwrite
  obtain ⟨body, len, _, _, _, rfl⟩ := Frame.encode_inv hfirst
  obtain rfl : _ = payload := Except.ok.inj hout
  exact List.cons_ne_nil _ _

/-- A stamped datagram within its limit has the header it was made of, and the
right checksum. -/
theorem stamped_header {packetType : PacketType} {flags : PacketFlags} {id number : Nat}
    {payload : Bytes} (hbits : flags.bits < 2 ^ 16)
    (hknown : PacketFlags.fromBits flags.bits = .ok flags) (hid : id < 2 ^ 64)
    (hnumber : number < 2 ^ 64) (hpayload : payload.length < 2 ^ 16)
    (hlimit : fixedHeaderLen + payload.length ≤ limit)
    (hbytes : bytes =
      stamp (datagram packetType flags id number payload.length [0, 0, 0, 0] payload)) :
    ∃ header : PacketHeader, decodeHeaderAndLengths bytes limit = .ok header ∧
      verifyChecksum bytes header = .ok () ∧ header.packetType = packetType ∧ header.flags = flags ∧
      header.headerLen = fixedHeaderLen ∧ header.connectionId = id ∧ header.packetNumber = number ∧
      bytes.drop fixedHeaderLen = payload ∧
      zeroed (bytes.take fixedHeaderLen) 26 30 =
        headerBytes packetType flags id number payload.length ∧
      bytes.length = fixedHeaderLen + payload.length := by
  subst hbytes
  rw [stamp_datagram]
  generalize hsum : crc32cWithZeroedRange
    (datagram packetType flags id number payload.length [0, 0, 0, 0] payload) 26 30 = sum
  have hfour : (beBytes 4 sum).length = 4 := length_beBytes 4 sum
  refine ⟨_, decodeHeaderAndLengths_datagram hbits hknown hid hnumber hpayload
    (hsum ▸ crc32c_lt _) hlimit, ?_, rfl, rfl, rfl, rfl, rfl, drop_datagram hfour, ?_,
    length_datagram _ _ _ _ _ _ hfour⟩
  · rw [verifyChecksum]
    dsimp only
    rw [crc32c_datagram hfour, hsum, if_neg (by simp)]
  · rw [take_datagram hfour, zeroed_datagram hfour, ← headerBytes_append, List.append_nil]

/-- What was written is read back. -/
theorem encodePacket_reads (typed : p.Typed) (h : encodePacket p limit = .ok bytes) :
    bytes.length ≤ limit ∧ decodePacket bytes limit = .ok p.truncated := by
  obtain ⟨hflag, payload, hpayload, hlimit, hbytes⟩ := encodePacket_inv h
  have hlen : payload.length < 2 ^ 16 := Nat.lt_succ_of_le (encodeFrames_inv hpayload).2.2.2
  obtain ⟨header, hheader, hchecksum, htype, hflags, hheaderLen, hid, hnumber, hdrop, _, hlength⟩ :=
    stamped_header typed.flags typed.known typed.connection typed.number hlen hlimit hbytes
  refine ⟨hlength.trans_le hlimit, ?_⟩
  have hplain : ¬ header.flags.contains encryptedFlag = true := by simp [hflags, hflag]
  have hfull : ¬ payload.isEmpty = true := by simpa using encodeFrames_ne_nil hpayload
  rw [decodePacket, bind_of_ok hheader]
  dsimp only
  rw [if_neg hplain, decodePlainPacket, bind_of_ok hchecksum]
  dsimp only
  rw [hheaderLen, hdrop, if_neg hfull, bind_of_ok (decodeFrames_of_encode typed.frames hpayload),
    htype, hflags, hid, hnumber]
  rfl

/-- A packet that was read can be written again, in no more bytes. -/
theorem decodePacket_written (h : decodePacket bytes limit = .ok p) :
    p.Typed ∧ p.truncated = p ∧ ∃ out, encodePacket p limit = .ok out ∧
      out.length ≤ bytes.length := by
  obtain ⟨header, hheader, h⟩ := ok_of_bind h
  obtain ⟨hplain, h⟩ := ok_of_guard h
  obtain ⟨_, _, h⟩ := ok_of_bind h
  obtain ⟨_, h⟩ := ok_of_guard h
  obtain ⟨frames, hframes, h⟩ := ok_of_bind h
  obtain rfl := Except.ok.inj h
  obtain ⟨hmax, hheaderLen, hlength, hpayload, hbits, hknown, hid, hnumber⟩ :=
    decodeHeaderAndLengths_inv hheader
  obtain ⟨hempty, hall, hcount, payload, hwrite, hshort⟩ := decodeFrames_written hframes
  have hrest : (bytes.drop header.headerLen).length = header.payloadLen := by
    rw [List.length_drop, hheaderLen, hlength]
    omega
  refine ⟨⟨hbits, hknown, hid, hnumber, fun f hf => (hall f hf).1⟩, ?_, ?_⟩
  · have hsame : frames.map Frame.truncated = frames := by
      conv_rhs => rw [← List.map_id frames]
      exact List.map_congr_left fun f hf => (hall f hf).2
    simp only [Packet.truncated, hsame]
  · have hencode := encodeFrames_of (p := ⟨header.packetType, header.flags, header.connectionId,
      header.packetNumber, frames⟩) hempty hcount hwrite (by omega)
    refine ⟨_, encodePacket_of (by simpa using hplain) hencode (by omega), ?_⟩
    rw [stamp_datagram, length_datagram _ _ _ _ _ _ (length_beBytes ..)]
    omega

/-- Encoding and decoding agree: what a packet is encoded as is within the
limit and is decoded, under the same limit, as that packet, except that the
delays of acknowledgements are truncated to whole microseconds. -/
theorem codec_round_trip (typed : p.Typed) (h : encodePacket p limit = .ok bytes) :
    bytes.length ≤ limit ∧ decodePacket bytes limit = .ok p.truncated :=
  encodePacket_reads typed h

/-- A packet with an acknowledgement that took 1999 nanoseconds. -/
def samplePacket : Packet :=
  ⟨.data, ⟨ackElicitingFlag⟩, 7, 2, [.ack ⟨4, 1999, [⟨3, 4⟩, ⟨0, 1⟩]⟩, .ping 5]⟩

theorem samplePacket_typed : samplePacket.Typed := by
  refine ⟨by decide, by decide, by decide, by decide, ?_⟩
  simp only [samplePacket, List.forall_mem_cons]
  exact ⟨show fromDescending _ = _ by decide, show 5 < 2 ^ 64 by decide,
    fun f hf => (List.not_mem_nil hf).elim⟩

theorem samplePacket_encoded : encodeFrames samplePacket =
    .ok [4, 7, 4, 1, 2, 3, 4, 0, 1, 10, 8, 0, 0, 0, 0, 0, 0, 0, 5] := by decide

theorem codec_round_trip_sample : ∃ bytes, encodePacket samplePacket 1200 = .ok bytes ∧
    bytes.length ≤ 1200 ∧ decodePacket bytes 1200 = .ok samplePacket.truncated := by
  have hencode : encodePacket samplePacket 1200 = _ :=
    encodePacket_of (by decide) samplePacket_encoded (by decide)
  exact ⟨_, hencode, codec_round_trip samplePacket_typed hencode⟩

/-- The decoder accepts only what the encoder can write: an accepted packet is
encoded again, in no more bytes, and these are decoded as the same packet. -/
theorem codec_image (h : decodePacket bytes limit = .ok p) :
    ∃ out, encodePacket p limit = .ok out ∧ out.length ≤ bytes.length ∧
      decodePacket out limit = .ok p := by
  obtain ⟨typed, same, out, hout, hshort⟩ := decodePacket_written h
  have hread := (encodePacket_reads typed hout).2
  rw [same] at hread
  exact ⟨out, hout, hshort, hread⟩

/-- The same packet, with the delay truncated, in a datagram that spends two
bytes on the length of the first frame. -/
def sampleDatagram : Bytes :=
  [215, 241, 2, 2, 0, 1, 0, 30, 0, 0, 0, 0, 0, 0, 0, 7, 0, 0, 0, 0, 0, 0, 0, 2, 0, 20, 108, 53, 125,
    200, 4, 64, 7, 4, 1, 2, 3, 4, 0, 1, 10, 8, 0, 0, 0, 0, 0, 0, 0, 5]

theorem codec_image_sample : ∃ out, encodePacket samplePacket.truncated 1200 = .ok out ∧
    out.length ≤ sampleDatagram.length ∧ decodePacket out 1200 = .ok samplePacket.truncated :=
  codec_image (show decodePacket sampleDatagram 1200 = .ok samplePacket.truncated by
    decide +kernel)

end

end DartUdp.Udp
