import Mathlib.Tactic.IntervalCases
import Mathlib.Tactic.Positivity
import DartUdp.Lib.Codec
import DartUdp.Udp.Codec

/-!
# Frames survive being written and read

The reader of each frame takes back what its writer put in front, whatever
follows. What a writer never sees is a value outside the fields of the source;
`Frame.Typed` says that it is inside them.

The lemmas come in pairs. `_reads` says that what was written is read back, `_takes`
that what was read is what would have been written. They compose to
`Frame.encode_reads` and `readFrame_takes`, on which the packets of the next module
rest.
-/

namespace DartUdp.Udp

open DartUdp.Lib

/-! ## One frame of a payload -/

/-- One round of the loop of `decode_frames`. -/
def readFrame : Reader Frame
  | [] => .error (.truncated "frame")
  | frameType :: rest =>
      (readVarint >>= fun bodyLen =>
        if bodyLen > maxFrameBodyLen then
          StateT.lift (.error (.frameTooLarge maxFrameBodyLen bodyLen))
        else readExact bodyLen "frame body" >>= fun body =>
          liftM (Frame.decode frameType.toNat body)) rest

/-- The loop of `decode_frames`, as long as bytes are left. -/
theorem readFrames_cons (room : Nat) (frameType : UInt8) (s : Bytes) :
    readFrames (room + 1) (frameType :: s) =
      (readFrame >>= fun frame => readFrames room >>= fun frames => pure (frame :: frames))
        (frameType :: s) := by
  rw [readFrames]
  show _ = StateT.bind _ _ _
  simp only [StateT.bind, readFrame, bind, Except.bind]
  cases readVarint s with
  | error e => rfl
  | ok p =>
      obtain ⟨bodyLen, s1⟩ := p
      by_cases hlen : bodyLen > maxFrameBodyLen
      · simp only [if_pos hlen]
        rfl
      · simp only [if_neg hlen, StateT.bind, bind, Except.bind]
        cases readExact bodyLen "frame body" s1 with
        | error e => rfl
        | ok p =>
            obtain ⟨body, s2⟩ := p
            dsimp only
            cases Frame.decode frameType.toNat body with
            | error e => rfl
            | ok frame =>
                have hlift : (liftM (Except.ok frame : Except ProtocolError Frame) : Reader Frame)
                    s2 = .ok (frame, s2) := rfl
                cases hframes : readFrames room s2 with
                | error e => simp only [hlift, hframes]
                | ok p =>
                    simp only [hlift, hframes]
                    rfl

/-! ## Numbers -/

section

variable {v n maximum : Nat} {x out : Bytes} {context : String}

theorem readExact_reads (h : x.length = n) : Reads (readExact n context) x x := exactly_reads h

theorem readExact_takes (n : Nat) (context : String) :
    Takes (readExact n context) fun used x => used = x ∧ x.length = n := exactly_takes n _

theorem readNat_reads (h : v < 256 ^ n) :
    Reads (ofBe <$> readExact n context) (beBytes n v) v := by
  have hread : Reads (ofBe <$> readExact n context) (beBytes n v) (ofBe (beBytes n v)) :=
    (readExact_reads (length_beBytes n v)).map
  rwa [ofBe_beBytes, Nat.mod_eq_of_lt h] at hread

theorem readNat_takes (n : Nat) (context : String) :
    Takes (ofBe <$> readExact n context) fun used v => used = beBytes n v ∧ v < 256 ^ n := by
  refine .map ((readExact_takes n context).mono ?_)
  rintro used x ⟨rfl, hx⟩
  exact ⟨by rw [← hx, beBytes_ofBe], hx ▸ ofBe_lt used⟩

theorem readU8_reads (h : v < 256) : Reads readU8 (beBytes 1 v) v := by
  intro rest
  show Except.ok ((v / 256 ^ 0).toUInt8.toNat, rest) = _
  have hv : (v / 256 ^ 0).toUInt8.toNat = v := by simp; omega
  rw [hv]

theorem readU8_takes : Takes readU8 fun used v => used = beBytes 1 v ∧ v < 256 := by
  intro s v s' h
  cases s with
  | nil => cases h
  | cons byte s =>
      cases h
      have hbyte := byte.toNat_lt
      exact ⟨[byte], rfl, by simp [beBytes], by omega⟩

/-! ## Variable-length integers -/

/-- A number of `2 ^ t` bytes with its tag `t` in the top two bits. -/
def tagged (t v : Nat) : Nat := 2 ^ (8 * 2 ^ t - 2) * t + v

theorem or_tag {t : Nat} (h : v < 2 ^ (8 * 2 ^ t - 2)) :
    v ||| 2 ^ (8 * 2 ^ t - 2) * t = tagged t v := by
  rw [tagged, Nat.two_pow_add_eq_or_of_lt h, Nat.or_comm]

/-- The writer takes the shortest length that holds the number. -/
theorem varint_eq (h : v ≤ varintMax) :
    ∃ t ≤ 3, v < 2 ^ (8 * 2 ^ t - 2) ∧ (∀ t', v < 2 ^ (8 * 2 ^ t' - 2) → t ≤ t') ∧
      varint v = .ok (beBytes (2 ^ t) (tagged t v)) := by
  unfold varintMax at h
  by_cases h0 : v ≤ 0x3f
  · refine ⟨0, by decide, by omega, fun t' _ => Nat.zero_le t', ?_⟩
    have hlen : varintLen v = .ok 1 := if_pos h0
    rw [varint, bind_of_ok hlen, tagged, Nat.mul_zero, Nat.zero_add]
    rfl
  have above0 : ∀ t', v < 2 ^ (8 * 2 ^ t' - 2) → 1 ≤ t' := by
    intro t' ht
    by_contra hlt
    obtain rfl : t' = 0 := by omega
    omega
  by_cases h1 : v ≤ 0x3fff
  · have hsmall : v < 2 ^ (8 * 2 ^ 1 - 2) := by omega
    refine ⟨1, by decide, hsmall, above0, ?_⟩
    have hlen : varintLen v = .ok 2 := (if_neg h0).trans (if_pos h1)
    rw [varint, bind_of_ok hlen, ← or_tag hsmall]
    rfl
  have above1 : ∀ t', v < 2 ^ (8 * 2 ^ t' - 2) → 2 ≤ t' := by
    intro t' ht
    have := above0 t' ht
    by_contra hlt
    obtain rfl : t' = 1 := by omega
    omega
  by_cases h2 : v ≤ 0x3fffffff
  · have hsmall : v < 2 ^ (8 * 2 ^ 2 - 2) := by omega
    refine ⟨2, by decide, hsmall, above1, ?_⟩
    have hlen : varintLen v = .ok 4 := (if_neg h0).trans ((if_neg h1).trans (if_pos h2))
    rw [varint, bind_of_ok hlen, ← or_tag hsmall]
    rfl
  · have hsmall : v < 2 ^ (8 * 2 ^ 3 - 2) := by omega
    refine ⟨3, by decide, hsmall, ?_, ?_⟩
    · intro t' ht
      have := above1 t' ht
      by_contra hlt
      obtain rfl : t' = 2 := by omega
      omega
    · have hlen : varintLen v = .ok 8 :=
        (if_neg h0).trans ((if_neg h1).trans ((if_neg h2).trans (if_pos h)))
      rw [varint, bind_of_ok hlen, ← or_tag hsmall]
      rfl

theorem varint_le (h : varint v = .ok out) : v ≤ varintMax := by
  by_contra hv
  have hlen : varintLen v = .error .varIntOverflow := by
    unfold varintMax at hv
    unfold varintLen varintMax
    rw [if_neg (by omega), if_neg (by omega), if_neg (by omega), if_neg hv]
  rw [varint, hlen] at h
  cases h

/-- The first byte tells how long the number is. -/
theorem tag_of_tagged {t : Nat} (ht : t ≤ 3) (hv : v < 2 ^ (8 * 2 ^ t - 2)) :
    (tagged t v / 256 ^ (2 ^ t - 1)).toUInt8.toNat >>> 6 = t := by
  unfold tagged
  rw [Nat.shiftRight_eq_div_pow, Nat.toUInt8_eq, UInt8.toNat_ofNat']
  interval_cases t <;> omega

theorem readVarint_tagged {t : Nat} (ht : t ≤ 3) (hv : v < 2 ^ (8 * 2 ^ t - 2)) :
    Reads readVarint (beBytes (2 ^ t) (tagged t v)) v := by
  intro rest
  have hpos : 0 < 2 ^ t := by positivity
  obtain ⟨m, hm⟩ : ∃ m, 2 ^ t = m + 1 := ⟨2 ^ t - 1, by omega⟩
  have hcons : beBytes (2 ^ t) (tagged t v) =
      (tagged t v / 256 ^ (2 ^ t - 1)).toUInt8 :: beBytes m (tagged t v) := by
    rw [hm]
    rfl
  have hread : readExact (2 ^ t) "varint" (beBytes (2 ^ t) (tagged t v) ++ rest) =
      .ok (beBytes (2 ^ t) (tagged t v), rest) := readExact_reads (length_beBytes ..) rest
  have hvalue : ofBe (beBytes (2 ^ t) (tagged t v)) &&& (2 ^ (8 * 2 ^ t - 2) - 1) = v := by
    have hlt : tagged t v < 256 ^ 2 ^ t := by
      unfold tagged
      interval_cases t <;> omega
    rw [ofBe_beBytes, Nat.mod_eq_of_lt hlt, Nat.and_two_pow_sub_one_eq_mod, tagged,
      Nat.mul_add_mod, Nat.mod_eq_of_lt hv]
  have hfirst : readVarint (beBytes (2 ^ t) (tagged t v) ++ rest) =
      (readExact (1 <<< ((tagged t v / 256 ^ (2 ^ t - 1)).toUInt8.toNat >>> 6)) "varint"
        (beBytes (2 ^ t) (tagged t v) ++ rest) >>= fun p =>
      pure (ofBe p.1 &&& (2 ^ (8 *
        (1 <<< ((tagged t v / 256 ^ (2 ^ t - 1)).toUInt8.toNat >>> 6)) - 2) - 1), p.2)) := by
    rw [hcons]
    rfl
  rw [hfirst, tag_of_tagged ht hv, Nat.one_shiftLeft, bind_of_ok hread, hvalue]
  rfl

theorem varint_reads (h : varint v = .ok out) : Reads readVarint out v := by
  obtain ⟨t, ht, hv, _, heq⟩ := varint_eq (varint_le h)
  obtain rfl : _ = out := Except.ok.inj (heq.symm.trans h)
  exact readVarint_tagged ht hv

/-- A number that was read is written in no more bytes. -/
theorem readVarint_takes : Takes readVarint fun used v =>
    v ≤ varintMax ∧ ∃ out, varint v = .ok out ∧ out.length ≤ used.length := by
  intro s v s' h
  cases s with
  | nil => cases h
  | cons first s =>
      obtain ⟨p, hread, hp⟩ := ok_of_bind
        (show (readExact (1 <<< (first.toNat >>> 6)) "varint" (first :: s) >>= fun p =>
          pure (ofBe p.1 &&& (2 ^ (8 * (1 <<< (first.toNat >>> 6)) - 2) - 1), p.2)) = _ from h)
      obtain ⟨used, hused, hbytes, hlen⟩ := readExact_takes _ _ _ _ _ hread
      cases hp
      have ht : first.toNat >>> 6 ≤ 3 := by
        have := first.toNat_lt
        rw [Nat.shiftRight_eq_div_pow]
        omega
      rw [Nat.one_shiftLeft] at hlen ⊢
      generalize first.toNat >>> 6 = t at ht hlen ⊢
      rw [Nat.and_two_pow_sub_one_eq_mod]
      have hsmall : ofBe p.1 % 2 ^ (8 * 2 ^ t - 2) < 2 ^ (8 * 2 ^ t - 2) :=
        Nat.mod_lt _ (by positivity)
      have hmax : ofBe p.1 % 2 ^ (8 * 2 ^ t - 2) ≤ varintMax := by
        have hpow : 2 ^ (8 * 2 ^ t - 2) ≤ 2 ^ 62 := by
          interval_cases t <;> decide
        unfold varintMax
        omega
      obtain ⟨t', _, _, hleast, heq⟩ := varint_eq hmax
      refine ⟨used, hused, hmax, _, heq, ?_⟩
      rw [length_beBytes, hbytes, hlen]
      exact Nat.pow_le_pow_right (by decide) (hleast t hsmall)

/-- A larger number takes no fewer bytes. -/
theorem varint_mono {v' : Nat} (h : v' ≤ v) (hv : varint v = .ok out) :
    ∃ out', varint v' = .ok out' ∧ out'.length ≤ out.length := by
  obtain ⟨t, _, hsmall, _, heq⟩ := varint_eq (varint_le hv)
  obtain ⟨t', _, _, hleast, heq'⟩ := varint_eq (h.trans (varint_le hv))
  obtain rfl : _ = out := Except.ok.inj (heq.symm.trans hv)
  refine ⟨_, heq', ?_⟩
  rw [length_beBytes, length_beBytes]
  exact Nat.pow_le_pow_right (by decide) (hleast t (h.trans_lt hsmall))

/-! ## Blobs and flags -/

/-- The writer succeeds, in no more bytes than these. -/
def Shrinks (written : Except ProtocolError Bytes) (used : Bytes) : Prop :=
  ∃ out, written = .ok out ∧ out.length ≤ used.length

theorem writeBlob_reads (h : writeBlob x maximum = .ok out) :
    Reads (readBlob maximum context) out x := by
  obtain ⟨hmax, hwrite⟩ := ok_of_guard h
  obtain ⟨len, hlen, hout⟩ := ok_of_bind hwrite
  obtain rfl : len ++ x = out := Except.ok.inj hout
  exact (varint_reads hlen).bind (.guard hmax (readExact_reads rfl))

theorem readBlob_takes :
    Takes (readBlob maximum context) fun used x => Shrinks (writeBlob x maximum) used := by
  refine readVarint_takes.bind fun length used hlength => .guard fun hle =>
    (readExact_takes length context).mono ?_
  rintro more x ⟨rfl, rfl⟩
  obtain ⟨_, len, hlen, hshort⟩ := hlength
  refine ⟨len ++ more, ?_, ?_⟩
  · rw [writeBlob, if_neg hle, bind_of_ok hlen]
    rfl
  · rw [List.length_append, List.length_append]
    omega

theorem readFlag_reads (flag : Bool) : Reads (readFlag context) [flagByte flag] flag := by
  cases flag with
  | false => exact (readU8_reads (v := 0) (by decide)).last (.pure false)
  | true => exact (readU8_reads (v := 1) (by decide)).last (.pure true)

theorem readFlag_takes : Takes (readFlag context) fun used flag => used = [flagByte flag] := by
  refine readU8_takes.bind fun byte used hbyte => ?_
  obtain ⟨rfl, -⟩ := hbyte
  split
  · exact .pure rfl
  · exact .pure rfl
  · intro s a s' h
    cases h

end

/-! ## The hellos -/

/-- The numbers both hellos negotiate fit their fields. -/
structure OfferTyped (maxDatagramSize maxStreams connectionWindow streamWindow : Nat) : Prop where
  datagram : maxDatagramSize < 2 ^ 16
  streams : maxStreams < 2 ^ 32
  connection : connectionWindow < 2 ^ 64
  stream : streamWindow < 2 ^ 64

structure ClientHello.Typed (h : ClientHello) : Prop where
  nonce : h.clientNonce.length = nonceLen
  key : h.clientPublicKey.length = x25519PublicKeyLen
  offer : OfferTyped h.maxDatagramSize h.maxStreams h.initialConnectionWindow h.initialStreamWindow

structure ServerHello.Typed (h : ServerHello) : Prop where
  nonce : h.serverNonce.length = nonceLen
  key : h.serverPublicKey.length = x25519PublicKeyLen
  finished : h.serverFinished.length = finishedTagLen
  offer : OfferTyped h.maxDatagramSize h.maxStreams h.initialConnectionWindow h.initialStreamWindow

section

variable {a b c d : Nat} {cookie out : Bytes} {context : String}

/-- The reader of the part both hellos end in. -/
theorem writeOffer_inv (h : writeOffer a b c d cookie = .ok out) :
    ∃ blob, writeBlob cookie maxCookieLen = .ok blob ∧
      out = beBytes 2 a ++ (beBytes 4 b ++ (beBytes 8 c ++ (beBytes 8 d ++ blob))) := by
  obtain ⟨blob, hblob, hout⟩ := ok_of_bind h
  obtain rfl : _ = out := Except.ok.inj hout
  exact ⟨blob, hblob, by simp only [List.append_assoc]⟩

theorem writeOffer_shrinks {used : Bytes} (h : Shrinks (writeBlob cookie maxCookieLen) used) :
    Shrinks (writeOffer a b c d cookie)
      (beBytes 2 a ++ (beBytes 4 b ++ (beBytes 8 c ++ (beBytes 8 d ++ used)))) := by
  obtain ⟨blob, hblob, hlen⟩ := h
  refine ⟨_, by rw [writeOffer, bind_of_ok hblob]; rfl, ?_⟩
  simp only [List.length_append]
  omega

end

theorem ClientHello.encode_reads {h : ClientHello} {out : Bytes} (typed : h.Typed)
    (henc : h.encode = .ok out) : Reads ClientHello.decode out h := by
  obtain ⟨_, hvalid, henc⟩ := ok_of_bind henc
  obtain ⟨offer, hoffer, hout⟩ := ok_of_bind henc
  obtain ⟨blob, hblob, rfl⟩ := writeOffer_inv hoffer
  obtain rfl : _ = out := Except.ok.inj hout
  refine Reads.cast ((readExact_reads typed.nonce).bind <| (readExact_reads typed.key).bind <|
    (readNat_reads typed.offer.datagram).bind <| (readNat_reads typed.offer.streams).bind <|
    (readNat_reads typed.offer.connection).bind <| (readNat_reads typed.offer.stream).bind <|
    (writeBlob_reads hblob).last <| (Reads.lift hvalid).last (.pure h)) ?_
  simp only [List.append_assoc]

theorem ClientHello.decode_takes : Takes ClientHello.decode fun used h =>
    h.Typed ∧ Shrinks h.encode used := by
  refine (readExact_takes _ _).bind fun nonce _ hnonce =>
    (readExact_takes _ _).bind fun key _ hkey =>
    (readNat_takes _ _).bind fun size _ hsize => (readNat_takes _ _).bind fun streams _ hstreams =>
    (readNat_takes _ _).bind fun connection _ hconnection =>
    (readNat_takes _ _).bind fun stream _ hstream => readBlob_takes.bind fun cookie used hcookie =>
    (Takes.lift _).bind fun _ _ hvalid => .pure ?_
  obtain ⟨rfl, hnonce⟩ := hnonce
  obtain ⟨rfl, hkey⟩ := hkey
  obtain ⟨rfl, hsize⟩ := hsize
  obtain ⟨rfl, hstreams⟩ := hstreams
  obtain ⟨rfl, hconnection⟩ := hconnection
  obtain ⟨rfl, hstream⟩ := hstream
  obtain ⟨rfl, hvalid⟩ := hvalid
  refine ⟨⟨hnonce, hkey, hsize, hstreams, hconnection, hstream⟩, ?_⟩
  obtain ⟨offer, hoffer, hlen⟩ := writeOffer_shrinks (a := size) (b := streams) (c := connection)
    (d := stream) hcookie
  refine ⟨_, by rw [encode, bind_of_ok hvalid, bind_of_ok hoffer]; rfl, ?_⟩
  simp only [List.length_append] at hlen ⊢
  omega

theorem ServerHello.encode_reads {h : ServerHello} {out : Bytes} (typed : h.Typed)
    (henc : h.encode = .ok out) : Reads ServerHello.decode out h := by
  obtain ⟨_, hvalid, henc⟩ := ok_of_bind henc
  obtain ⟨offer, hoffer, hout⟩ := ok_of_bind henc
  obtain ⟨blob, hblob, rfl⟩ := writeOffer_inv hoffer
  obtain rfl : _ = out := Except.ok.inj hout
  refine Reads.cast ((readExact_reads typed.nonce).bind <| (readExact_reads typed.key).bind <|
    (readExact_reads typed.finished).bind <|
    (readNat_reads typed.offer.datagram).bind <| (readNat_reads typed.offer.streams).bind <|
    (readNat_reads typed.offer.connection).bind <| (readNat_reads typed.offer.stream).bind <|
    (writeBlob_reads hblob).last <| (Reads.lift hvalid).last (.pure h)) ?_
  simp only [List.append_assoc]

theorem ServerHello.decode_takes : Takes ServerHello.decode fun used h =>
    h.Typed ∧ Shrinks h.encode used := by
  refine (readExact_takes _ _).bind fun nonce _ hnonce =>
    (readExact_takes _ _).bind fun key _ hkey =>
    (readExact_takes _ _).bind fun finished _ hfinished =>
    (readNat_takes _ _).bind fun size _ hsize => (readNat_takes _ _).bind fun streams _ hstreams =>
    (readNat_takes _ _).bind fun connection _ hconnection =>
    (readNat_takes _ _).bind fun stream _ hstream => readBlob_takes.bind fun cookie used hcookie =>
    (Takes.lift _).bind fun _ _ hvalid => .pure ?_
  obtain ⟨rfl, hnonce⟩ := hnonce
  obtain ⟨rfl, hkey⟩ := hkey
  obtain ⟨rfl, hfinished⟩ := hfinished
  obtain ⟨rfl, hsize⟩ := hsize
  obtain ⟨rfl, hstreams⟩ := hstreams
  obtain ⟨rfl, hconnection⟩ := hconnection
  obtain ⟨rfl, hstream⟩ := hstream
  obtain ⟨rfl, hvalid⟩ := hvalid
  refine ⟨⟨hnonce, hkey, hfinished, hsize, hstreams, hconnection, hstream⟩, ?_⟩
  obtain ⟨offer, hoffer, hlen⟩ := writeOffer_shrinks (a := size) (b := streams) (c := connection)
    (d := stream) hcookie
  refine ⟨_, by rw [encode, bind_of_ok hvalid, bind_of_ok hoffer]; rfl, ?_⟩
  simp only [List.length_append] at hlen ⊢
  omega

theorem HandshakeAck.encode_reads {a : HandshakeAck} {out : Bytes}
    (typed : a.clientFinished.length = finishedTagLen) (henc : a.encode = .ok out) :
    Reads HandshakeAck.decode out a := by
  obtain ⟨blob, hblob, hout⟩ := ok_of_bind henc
  obtain rfl : _ = out := Except.ok.inj hout
  exact (writeBlob_reads hblob).bind ((readExact_reads typed).last (.pure a))

theorem HandshakeAck.decode_takes : Takes HandshakeAck.decode fun used a =>
    a.clientFinished.length = finishedTagLen ∧ Shrinks a.encode used := by
  refine readBlob_takes.bind fun cookie used hcookie =>
    (readExact_takes _ _).bind fun finished _ hfinished => .pure ?_
  obtain ⟨blob, hblob, hlen⟩ := hcookie
  obtain ⟨rfl, hfinished⟩ := hfinished
  refine ⟨hfinished, _, by rw [encode, bind_of_ok hblob]; rfl, ?_⟩
  simp only [List.length_append]
  omega

/-! ## Acknowledgements -/

theorem writeRanges_reads {ranges : List AckRange} {out : Bytes}
    (h : writeRanges ranges = .ok out) : Reads (readRanges ranges.length) out ranges := by
  induction ranges generalizing out with
  | nil =>
      obtain rfl : [] = out := Except.ok.inj h
      exact .pure []
  | cons range ranges ih =>
      obtain ⟨start, hstart, h⟩ := ok_of_bind h
      obtain ⟨stop, hstop, h⟩ := ok_of_bind h
      obtain ⟨rest, hrest, hout⟩ := ok_of_bind h
      obtain rfl : _ = out := Except.ok.inj hout
      refine Reads.cast ((varint_reads hstart).bind <| (varint_reads hstop).bind <|
        (ih hrest).last (.pure (range :: ranges))) ?_
      simp only [List.append_assoc]

theorem readRanges_takes (count : Nat) : Takes (readRanges count) fun used ranges =>
    ranges.length = count ∧ Shrinks (writeRanges ranges) used := by
  induction count with
  | zero => exact .pure ⟨rfl, [], rfl, le_rfl⟩
  | succ count ih =>
      refine readVarint_takes.bind fun start _ hstart => readVarint_takes.bind fun stop _ hstop =>
        ih.bind fun ranges _ hranges => .pure ?_
      obtain ⟨_, outStart, hstart, hlenStart⟩ := hstart
      obtain ⟨_, outStop, hstop, hlenStop⟩ := hstop
      obtain ⟨rfl, out, hranges, hlen⟩ := hranges
      have hwrite : writeRanges (⟨start, stop⟩ :: ranges) = .ok (outStart ++ outStop ++ out) := by
        rw [writeRanges, bind_of_ok hstart, bind_of_ok hstop, bind_of_ok hranges]
        rfl
      refine ⟨rfl, _, hwrite, ?_⟩
      simp only [List.length_append, List.length_nil]
      omega

/-- A list of ranges is one that `AckRanges` can hold. -/
def InOrder (ranges : List AckRange) : Prop := fromDescending ranges = .ok ranges

theorem fromDescending_eq {ranges ranges' : List AckRange}
    (h : fromDescending ranges = .ok ranges') :
    ranges' = ranges ∧ InOrder ranges := by
  have heq : ranges = ranges' := by
    unfold fromDescending at h
    repeat' split at h
    all_goals first
      | exact Except.ok.inj h
      | cases h
  subst heq
  exact ⟨rfl, h⟩

theorem InOrder.length {ranges : List AckRange} (h : InOrder ranges) :
    ranges.length ≠ 0 ∧ ranges.length ≤ maxAckRanges := by
  obtain ⟨hempty, h⟩ := ok_of_guard h
  obtain ⟨hmax, -⟩ := ok_of_guard h
  exact ⟨fun hzero => hempty (by simp [List.length_eq_zero_iff.1 hzero]), Nat.not_lt.1 hmax⟩

theorem encodeRanges_reads {ranges : List AckRange} {out : Bytes} (typed : InOrder ranges)
    (h : encodeRanges ranges = .ok out) : Reads decodeRanges out ranges := by
  obtain ⟨hmax, h⟩ := ok_of_guard h
  obtain ⟨count, hcount, h⟩ := ok_of_bind h
  obtain ⟨body, hbody, hout⟩ := ok_of_bind h
  obtain rfl : _ = out := Except.ok.inj hout
  exact (varint_reads hcount).bind <| .guard typed.length.1 <| .guard hmax <|
    (writeRanges_reads hbody).last (.lift typed)

theorem decodeRanges_takes : Takes decodeRanges fun used ranges =>
    InOrder ranges ∧ Shrinks (encodeRanges ranges) used := by
  refine readVarint_takes.bind fun count _ hcount => .guard fun _ => .guard fun hmax =>
    (readRanges_takes count).bind fun ranges _ hranges => (Takes.lift _).mono ?_
  rintro _ _ ⟨rfl, hordered⟩
  obtain ⟨rfl, hordered⟩ := fromDescending_eq hordered
  obtain ⟨_, outCount, hcount, hlenCount⟩ := hcount
  obtain ⟨rfl, out, hranges, hlen⟩ := hranges
  refine ⟨hordered, outCount ++ out, ?_, ?_⟩
  · rw [encodeRanges, if_neg hmax, bind_of_ok hcount, bind_of_ok hranges]
    rfl
  · simp only [List.length_append, List.length_nil]
    omega

/-- The delay of the acknowledgement in whole microseconds. -/
def AckFrame.truncated (a : AckFrame) : AckFrame :=
  { a with ackDelay := asMicros a.ackDelay * 1000 }

theorem AckFrame.validate_truncated {a : AckFrame} (h : a.validate = .ok ()) :
    a.truncated.validate = .ok () := by
  have hmicros : asMicros (asMicros a.ackDelay * 1000) = asMicros a.ackDelay :=
    Nat.mul_div_cancel _ (by decide)
  unfold validate at h ⊢
  unfold truncated
  rw [hmicros]
  exact h

theorem AckFrame.encode_reads {a : AckFrame} {out : Bytes} (typed : InOrder a.ranges)
    (henc : a.encode = .ok out) : Reads AckFrame.decode out a.truncated := by
  obtain ⟨_, hvalid, henc⟩ := ok_of_bind henc
  obtain ⟨largest, hlargest, henc⟩ := ok_of_bind henc
  obtain ⟨delay, hdelay, henc⟩ := ok_of_bind henc
  obtain ⟨ranges, hranges, hout⟩ := ok_of_bind henc
  obtain rfl : _ = out := Except.ok.inj hout
  refine Reads.cast ((varint_reads hlargest).bind <| (varint_reads hdelay).bind <|
    (encodeRanges_reads typed hranges).last <| (Reads.lift (validate_truncated hvalid)).last
    (.pure a.truncated)) ?_
  simp only [List.append_assoc]

theorem AckFrame.decode_takes : Takes AckFrame.decode fun used a =>
    InOrder a.ranges ∧ a.truncated = a ∧ Shrinks a.encode used := by
  refine readVarint_takes.bind fun largest _ hlargest =>
    readVarint_takes.bind fun micros _ hmicros =>
    decodeRanges_takes.bind fun ranges _ hranges => (Takes.lift _).bind fun _ _ hvalid => .pure ?_
  obtain ⟨_, outLargest, hlargest, hlenLargest⟩ := hlargest
  obtain ⟨_, outMicros, hmicros, hlenMicros⟩ := hmicros
  obtain ⟨hordered, outRanges, hranges, hlenRanges⟩ := hranges
  obtain ⟨rfl, hvalid⟩ := hvalid
  have hdelay : asMicros (micros * 1000) = micros := Nat.mul_div_cancel _ (by decide)
  refine ⟨hordered, by rw [truncated, hdelay], outLargest ++ outMicros ++ outRanges, ?_, ?_⟩
  · rw [encode, bind_of_ok hvalid, bind_of_ok hlargest]
    dsimp only
    rw [hdelay, bind_of_ok hmicros, bind_of_ok hranges]
    rfl
  · simp only [List.length_append, List.length_nil]
    omega

/-! ## Streams and the close -/

theorem StreamOpen.encode_reads {o : StreamOpen} {out : Bytes} (henc : o.encode = .ok out) :
    Reads StreamOpen.decode out o := by
  obtain ⟨hwindow, henc⟩ := ok_of_guard henc
  obtain ⟨id, hid, henc⟩ := ok_of_bind henc
  obtain ⟨window, hwrite, hout⟩ := ok_of_bind henc
  obtain rfl : _ = out := Except.ok.inj hout
  refine Reads.cast ((varint_reads hid).bind <| (varint_reads hwrite).bind <|
    (readFlag_reads o.bidirectional).last (.guard hwindow (.pure o))) ?_
  simp only [List.append_assoc]

theorem StreamOpen.decode_takes : Takes StreamOpen.decode fun used o => Shrinks o.encode used := by
  refine readVarint_takes.bind fun id _ hid => readVarint_takes.bind fun window _ hwrite =>
    readFlag_takes.bind fun bidirectional _ hflag => .guard fun hwindow => .pure ?_
  obtain ⟨_, outId, hid, hlenId⟩ := hid
  obtain ⟨_, outWindow, hwrite, hlenWindow⟩ := hwrite
  subst hflag
  refine ⟨outId ++ outWindow ++ [flagByte bidirectional], ?_, ?_⟩
  · rw [encode, if_neg hwindow, bind_of_ok hid, bind_of_ok hwrite]
    rfl
  · simp only [List.length_append, List.length_nil, List.length_singleton]
    omega

theorem StreamData.encode_reads {d : StreamData} {out : Bytes} (henc : d.encode = .ok out) :
    Reads StreamData.decode out d := by
  obtain ⟨id, hid, henc⟩ := ok_of_bind henc
  obtain ⟨offset, hoffset, henc⟩ := ok_of_bind henc
  obtain ⟨blob, hblob, hout⟩ := ok_of_bind henc
  obtain rfl : _ = out := Except.ok.inj hout
  -- the offset fits 62 bits and the data a frame, so their sum fits 64
  have hoffsetMax := varint_le hoffset
  have hdataMax := (ok_of_guard hblob).1
  have hsum : ¬ (checkedAdd d.offset d.data.length).isNone = true := by
    unfold varintMax at hoffsetMax
    unfold maxFrameBodyLen at hdataMax
    unfold checkedAdd u64Max
    rw [if_pos (by omega)]
    simp
  refine Reads.cast ((varint_reads hid).bind <| (varint_reads hoffset).bind <|
    (readFlag_reads d.fin).bind <| (writeBlob_reads hblob).last (.guard hsum (.pure d))) ?_
  simp only [List.append_assoc]

theorem StreamData.decode_takes : Takes StreamData.decode fun used d => Shrinks d.encode used := by
  refine readVarint_takes.bind fun id _ hid => readVarint_takes.bind fun offset _ hoffset =>
    readFlag_takes.bind fun fin _ hflag => readBlob_takes.bind fun data _ hdata =>
    .guard fun _ => .pure ?_
  obtain ⟨_, outId, hid, hlenId⟩ := hid
  obtain ⟨_, outOffset, hoffset, hlenOffset⟩ := hoffset
  obtain ⟨blob, hblob, hlenBlob⟩ := hdata
  subst hflag
  refine ⟨outId ++ outOffset ++ [flagByte fin] ++ blob, ?_, ?_⟩
  · rw [encode, bind_of_ok hid, bind_of_ok hoffset, bind_of_ok hblob]
    rfl
  · simp only [List.length_append, List.length_nil, List.length_singleton]
    omega

theorem ResetStream.encode_reads {r : ResetStream} {out : Bytes} (typed : r.errorCode < 2 ^ 32)
    (henc : r.encode = .ok out) : Reads ResetStream.decode out r := by
  obtain ⟨id, hid, henc⟩ := ok_of_bind henc
  obtain ⟨offset, hoffset, hout⟩ := ok_of_bind henc
  obtain rfl : _ = out := Except.ok.inj hout
  refine Reads.cast ((varint_reads hid).bind <| (readNat_reads typed).bind <|
    (varint_reads hoffset).last (.pure r)) ?_
  simp only [List.append_assoc]

theorem ResetStream.decode_takes : Takes ResetStream.decode fun used r =>
    r.errorCode < 2 ^ 32 ∧ Shrinks r.encode used := by
  refine readVarint_takes.bind fun id _ hid => (readNat_takes _ _).bind fun code _ hcode =>
    readVarint_takes.bind fun offset _ hoffset => .pure ?_
  obtain ⟨_, outId, hid, hlenId⟩ := hid
  obtain ⟨rfl, hcode⟩ := hcode
  obtain ⟨_, outOffset, hoffset, hlenOffset⟩ := hoffset
  refine ⟨hcode, outId ++ beBytes 4 code ++ outOffset, ?_, ?_⟩
  · rw [encode, bind_of_ok hid, bind_of_ok hoffset]
    rfl
  · simp only [List.length_append, List.length_nil]
    omega

theorem MaxStreamData.encode_reads {m : MaxStreamData} {out : Bytes} (henc : m.encode = .ok out) :
    Reads MaxStreamData.decode out m := by
  obtain ⟨id, hid, henc⟩ := ok_of_bind henc
  obtain ⟨offset, hoffset, hout⟩ := ok_of_bind henc
  obtain rfl : _ = out := Except.ok.inj hout
  exact (varint_reads hid).bind ((varint_reads hoffset).last (.pure m))

theorem MaxStreamData.decode_takes : Takes MaxStreamData.decode fun used m =>
    Shrinks m.encode used := by
  refine readVarint_takes.bind fun id _ hid => readVarint_takes.bind fun offset _ hoffset =>
    .pure ?_
  obtain ⟨_, outId, hid, hlenId⟩ := hid
  obtain ⟨_, outOffset, hoffset, hlenOffset⟩ := hoffset
  refine ⟨outId ++ outOffset, ?_, ?_⟩
  · rw [encode, bind_of_ok hid, bind_of_ok hoffset]
    rfl
  · simp only [List.length_append, List.length_nil]
    omega

structure ConnectionClose.Typed (c : ConnectionClose) : Prop where
  code : c.errorCode < 2 ^ 32
  frameType : c.frameType < 2 ^ 8
  reason : utf8Valid c.reason = true

theorem ConnectionClose.encode_reads {c : ConnectionClose} {out : Bytes} (typed : c.Typed)
    (henc : c.encode = .ok out) : Reads ConnectionClose.decode out c := by
  obtain ⟨_, henc⟩ := ok_of_guard henc
  obtain ⟨blob, hblob, hout⟩ := ok_of_bind henc
  obtain rfl : _ = out := Except.ok.inj hout
  have hreason : ¬ (!utf8Valid c.reason) = true := by simp [typed.reason]
  refine Reads.cast ((readNat_reads typed.code).bind <| (readU8_reads typed.frameType).bind <|
    (writeBlob_reads hblob).last (.guard hreason (.pure c))) ?_
  simp only [List.append_assoc]

theorem ConnectionClose.decode_takes : Takes ConnectionClose.decode fun used c =>
    c.Typed ∧ Shrinks c.encode used := by
  refine (readNat_takes _ _).bind fun code _ hcode => readU8_takes.bind fun frameType _ htype =>
    readBlob_takes.bind fun reason _ hreason => .guard fun hvalid => .pure ?_
  obtain ⟨rfl, hcode⟩ := hcode
  obtain ⟨rfl, htype⟩ := htype
  obtain ⟨blob, hblob, hlen⟩ := hreason
  refine ⟨⟨hcode, htype, by simpa using hvalid⟩,
    beBytes 4 code ++ beBytes 1 frameType ++ blob, ?_, ?_⟩
  · rw [encode, if_neg (ok_of_guard hblob).1, bind_of_ok hblob]
    rfl
  · simp only [List.length_append, List.length_nil]
    omega

/-! ## Frames -/

/-- The fields of a frame are in the range of the source's types. -/
def Frame.Typed : Frame → Prop
  | .clientHello h => h.Typed
  | .serverHello h => h.Typed
  | .handshakeAck a => a.clientFinished.length = finishedTagLen
  | .ack a => InOrder a.ranges
  | .resetStream r => r.errorCode < 2 ^ 32
  | .ping nonce => nonce < 2 ^ 64
  | .pong nonce => nonce < 2 ^ 64
  | .connectionClose c => c.Typed
  | _ => True

/-- The frame as it arrives: the delay of an acknowledgement is in whole
microseconds. -/
def Frame.truncated : Frame → Frame
  | .ack a => .ack a.truncated
  | frame => frame

theorem readBody_reads {f : Frame} {body : Bytes} (typed : f.Typed) (h : f.encodeBody = .ok body) :
    Reads (readBody f.typeCode) body f.truncated := by
  cases f with
  | clientHello hello => exact (ClientHello.encode_reads typed h).map
  | serverHello hello => exact (ServerHello.encode_reads typed h).map
  | handshakeAck ack => exact (HandshakeAck.encode_reads typed h).map
  | retry cookie => exact (writeBlob_reads h).map
  | ack ack => exact (AckFrame.encode_reads typed h).map
  | streamOpen frame => exact (StreamOpen.encode_reads h).map
  | streamData data => exact (StreamData.encode_reads h).map
  | resetStream reset => exact (ResetStream.encode_reads typed h).map
  | maxStreamData update => exact (MaxStreamData.encode_reads h).map
  | maxData maxOffset => exact (varint_reads h).map
  | ping nonce =>
      obtain rfl : _ = body := Except.ok.inj h
      exact (readNat_reads typed).map
  | pong nonce =>
      obtain rfl : _ = body := Except.ok.inj h
      exact (readNat_reads typed).map
  | connectionClose frame => exact (ConnectionClose.encode_reads typed h).map

/-- What is read as a frame can be written again, as the same kind of frame and
in no more bytes. -/
structure Frame.Written (frameType : Nat) (body : Bytes) (f : Frame) : Prop where
  typed : f.Typed
  same : f.truncated = f
  code : f.typeCode = frameType
  shrinks : Shrinks f.encodeBody body

theorem readBody_takes (frameType : Nat) :
    Takes (readBody frameType) (Frame.Written frameType) := by
  unfold readBody
  split
  · exact .map (ClientHello.decode_takes.mono fun _ _ h => ⟨h.1, rfl, rfl, h.2⟩)
  · exact .map (ServerHello.decode_takes.mono fun _ _ h => ⟨h.1, rfl, rfl, h.2⟩)
  · exact .map (HandshakeAck.decode_takes.mono fun _ _ h => ⟨h.1, rfl, rfl, h.2⟩)
  · exact .map (readBlob_takes.mono fun _ _ h => ⟨trivial, rfl, rfl, h⟩)
  · exact .map (AckFrame.decode_takes.mono fun _ _ h =>
      ⟨h.1, congrArg Frame.ack h.2.1, rfl, h.2.2⟩)
  · exact .map (StreamOpen.decode_takes.mono fun _ _ h => ⟨trivial, rfl, rfl, h⟩)
  · exact .map (StreamData.decode_takes.mono fun _ _ h => ⟨trivial, rfl, rfl, h⟩)
  · exact .map (ResetStream.decode_takes.mono fun _ _ h => ⟨h.1, rfl, rfl, h.2⟩)
  · exact .map (MaxStreamData.decode_takes.mono fun _ _ h => ⟨trivial, rfl, rfl, h⟩)
  · exact .map (readVarint_takes.mono fun _ _ h => ⟨trivial, rfl, rfl, h.2⟩)
  · refine .map ((readNat_takes _ _).mono ?_)
    rintro _ nonce ⟨rfl, hnonce⟩
    exact ⟨hnonce, rfl, rfl, _, rfl, le_rfl⟩
  · refine .map ((readNat_takes _ _).mono ?_)
    rintro _ nonce ⟨rfl, hnonce⟩
    exact ⟨hnonce, rfl, rfl, _, rfl, le_rfl⟩
  · exact .map (ConnectionClose.decode_takes.mono fun _ _ h => ⟨h.1, rfl, rfl, h.2⟩)
  · intro s f s' h
    cases h

theorem Frame.decode_of_reads {frameType : Nat} {body : Bytes} {f : Frame}
    (h : Reads (readBody frameType) body f) : Frame.decode frameType body = .ok f := by
  have hread : (readBody frameType >>= fun frame => finish >>= fun _ => pure frame) body =
      .ok (f, []) := by
    rw [decoder_bind h.whole]
    rfl
  rw [Frame.decode]
  exact bind_of_ok hread

theorem Frame.decode_written {frameType : Nat} {body : Bytes} {f : Frame}
    (h : Frame.decode frameType body = .ok f) : f.Written frameType body := by
  obtain ⟨p, hread, hf⟩ := ok_of_bind h
  obtain ⟨frame, rest, hbody, hread⟩ := decoder_bind_inv hread
  obtain ⟨_, rest', hfinish, hread⟩ := decoder_bind_inv hread
  cases hread
  cases hf
  obtain ⟨used, hused, hwritten⟩ := readBody_takes _ _ _ _ hbody
  have hempty : rest = [] := by
    by_contra hne
    change (if rest ≠ [] then throw (.invalidValue "trailing frame bytes") else pure () :
      Reader Unit) rest = _ at hfinish
    rw [if_pos hne] at hfinish
    cases hfinish
  rw [hused, hempty, List.append_nil]
  exact hwritten

theorem Frame.typeCode_byte (f : Frame) : f.typeCode.toUInt8.toNat = f.typeCode := by
  cases f <;> rfl

theorem Frame.encode_inv {f : Frame} {out : Bytes} (h : f.encode = .ok out) :
    ∃ body len, f.encodeBody = .ok body ∧ body.length ≤ maxFrameBodyLen ∧
      varint body.length = .ok len ∧ out = f.typeCode.toUInt8 :: (len ++ body) := by
  obtain ⟨body, hbody, h⟩ := ok_of_bind h
  obtain ⟨hmax, h⟩ := ok_of_guard h
  obtain ⟨len, hlen, hout⟩ := ok_of_bind h
  exact ⟨body, len, hbody, Nat.not_lt.1 hmax, hlen, (Except.ok.inj hout).symm⟩

theorem Frame.encode_of_body {f : Frame} {body len : Bytes} (hbody : f.encodeBody = .ok body)
    (hmax : body.length ≤ maxFrameBodyLen) (hlen : varint body.length = .ok len) :
    f.encode = .ok (f.typeCode.toUInt8 :: (len ++ body)) := by
  rw [Frame.encode, bind_of_ok hbody]
  dsimp only
  rw [if_neg (Nat.not_lt.2 hmax), bind_of_ok hlen]
  rfl

/-- A frame is read back from what it was written as. -/
theorem Frame.encode_reads {f : Frame} {out : Bytes} (typed : f.Typed) (h : f.encode = .ok out) :
    Reads readFrame out f.truncated := by
  obtain ⟨body, len, hbody, hmax, hlen, rfl⟩ := encode_inv h
  have hdecode : Frame.decode f.typeCode.toUInt8.toNat body = .ok f.truncated := by
    rw [typeCode_byte]
    exact decode_of_reads (readBody_reads typed hbody)
  exact (varint_reads hlen).bind <| .guard (Nat.not_lt.2 hmax) <|
    (readExact_reads rfl).last (.lift hdecode)

/-- A frame that was read is written in no more bytes. -/
theorem readFrame_takes : Takes readFrame fun used f =>
    f.Typed ∧ f.truncated = f ∧ Shrinks f.encode used := by
  intro s f s' h
  cases s with
  | nil => cases h
  | cons frameType s =>
      have htakes : Takes (readVarint >>= fun bodyLen =>
          if bodyLen > maxFrameBodyLen then
            StateT.lift (.error (.frameTooLarge maxFrameBodyLen bodyLen))
          else readExact bodyLen "frame body" >>= fun body =>
            (liftM (Frame.decode frameType.toNat body) : Reader Frame))
          fun used f => f.Typed ∧ f.truncated = f ∧ Shrinks f.encode (frameType :: used) := by
        refine readVarint_takes.bind fun bodyLen _ hbodyLen => .guard fun hmax =>
          (readExact_takes _ _).bind fun body _ hbody => (Takes.lift _).mono ?_
        rintro _ f ⟨rfl, hdecode⟩
        obtain ⟨rfl, rfl⟩ := hbody
        obtain ⟨_, outLen, hlen, hshort⟩ := hbodyLen
        obtain ⟨typed, same, code, out, hout, hle⟩ := Frame.decode_written hdecode
        obtain ⟨outLen', hlen', hshort'⟩ := varint_mono hle hlen
        refine ⟨typed, same, _, Frame.encode_of_body hout (hle.trans (Nat.not_lt.1 hmax)) hlen', ?_⟩
        simp only [List.length_cons, List.length_append, List.length_nil]
        omega
      obtain ⟨used, rfl, hf⟩ := htakes s f s' h
      exact ⟨frameType :: used, rfl, hf⟩

end DartUdp.Udp
