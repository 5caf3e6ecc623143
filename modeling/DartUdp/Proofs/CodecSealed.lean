import DartUdp.Core.Net
import DartUdp.Proofs.CodecPackets

/-!
# Sealed packets survive being written and read

Sealing uses the header as associated data, and the header says that the packet
is encrypted and how long the payload is with its tag. The receiver takes the
associated data from the datagram, with the checksum set to zero again. The two
are the same bytes, so what was sealed opens.

The module is for `sealed_round_trip`. `encodePacketWithCrypto_of` is what sealing
makes of a packet that encodes, and `decodeEncryptedPacket_of` what opening makes of
such a datagram.
-/

namespace DartUdp.Udp

open DartUdp.Lib DartUdp.Core

/-- What the cipher promises: it seals every payload under keys and nonces of
the right lengths, and opens what it has sealed. -/
structure Suite.Aead (suite : Suite) : Prop where
  seals : ∀ key nonce associatedData plaintext, key.length = aeadKeyLen →
    nonce.length = packetNonceLen → plaintext.length ≤ 0xffff →
    ∃ ciphertext tag, suite.encrypt key nonce associatedData plaintext = some (ciphertext, tag)
  opens : ∀ key nonce associatedData plaintext ciphertext tag,
    suite.encrypt key nonce associatedData plaintext = some (ciphertext, tag) →
    suite.decrypt key nonce associatedData ciphertext tag = some plaintext

/-- The keys have the lengths of the source's arrays. -/
structure SessionKeys.Typed (keys : SessionKeys) : Prop where
  client : keys.clientToServer.length = aeadKeyLen
  server : keys.serverToClient.length = aeadKeyLen
  salt : keys.nonceSalt.length = 4

namespace SessionKeys

variable {keys : SessionKeys}

theorem Typed.outbound (h : keys.Typed) (role : CryptoRole) :
    (keys.outboundKey role).length = aeadKeyLen := by
  cases role with
  | client => exact h.client
  | server => exact h.server

theorem Typed.nonce (h : keys.Typed) (number : Nat) :
    (keys.packetNonce number).length = packetNonceLen := by
  rw [packetNonce, List.length_append, h.salt, length_beBytes]
  rfl

/-- One side's outbound key is the other's inbound key. -/
theorem inbound_of_ne {role peer : CryptoRole} (h : role ≠ peer) :
    keys.inboundKey peer = keys.outboundKey role := by
  cases role with
  | client =>
      cases peer with
      | client => exact absurd rfl h
      | server => rfl
  | server =>
      cases peer with
      | client => rfl
      | server => exact absurd rfl h

end SessionKeys

section

variable {suite : Suite} {p : Packet} {limit : Nat} {bytes : Bytes} {sender receiver : PacketCrypto}

theorem bits_lt {bits : Nat} (hbits : bits < 2 ^ 16)
    (hknown : bits &&& (0xffff ^^^ knownBits) = 0) : bits < 16 := by
  have hhigh : bits >>> 4 &&& 2 ^ 12 - 1 = 0 := by
    have hshift := congrArg (· >>> 4) hknown
    rwa [Nat.shiftRight_and_distrib, Nat.zero_shiftRight] at hshift
  rw [Nat.and_two_pow_sub_one_eq_mod, Nat.shiftRight_eq_div_pow] at hhigh
  omega

theorem bitor_encrypted {flags : PacketFlags} (hbits : flags.bits < 2 ^ 16)
    (hknown : PacketFlags.fromBits flags.bits = .ok flags) :
    (flags.bitor encryptedFlag).bits < 2 ^ 16 ∧
      PacketFlags.fromBits (flags.bitor encryptedFlag).bits = .ok (flags.bitor encryptedFlag) ∧
      (flags.bitor encryptedFlag).contains encryptedFlag = true := by
  obtain ⟨bits⟩ := flags
  obtain ⟨hzero, -⟩ := ok_of_guard hknown
  have hsmall : bits < 16 := bits_lt hbits (by simpa using hzero)
  have hall : ∀ b < 16, (PacketFlags.bitor ⟨b⟩ encryptedFlag).bits < 2 ^ 16 ∧
      PacketFlags.fromBits (PacketFlags.bitor ⟨b⟩ encryptedFlag).bits =
        .ok (PacketFlags.bitor ⟨b⟩ encryptedFlag) ∧
      (PacketFlags.bitor ⟨b⟩ encryptedFlag).contains encryptedFlag = true := by decide
  exact hall bits hsmall

/-- A packet whose frames have been sealed, within its limit. -/
theorem encodePacketWithCrypto_of {payload ciphertext tag : Bytes}
    (hflag : p.flags.contains encryptedFlag = false) (hpayload : encodeFrames p = .ok payload)
    (hlen : payload.length + aeadTagLen ≤ 0xffff)
    (hseal : suite.encrypt (sender.keys.outboundKey sender.role)
      (sender.keys.packetNonce p.packetNumber)
      (headerBytes p.packetType (p.flags.bitor encryptedFlag) p.connectionId p.packetNumber
        (payload.length + aeadTagLen)) payload = some (ciphertext, tag))
    (hlimit : fixedHeaderLen + (ciphertext ++ tag).length ≤ limit) :
    encodePacketWithCrypto suite p limit sender =
      .ok (stamp (datagram p.packetType (p.flags.bitor encryptedFlag) p.connectionId p.packetNumber
        (payload.length + aeadTagLen) [0, 0, 0, 0] (ciphertext ++ tag))) := by
  have hfalse : ¬ p.flags.contains encryptedFlag = true := by simp [hflag]
  have hvalid : validateDatagramLimit limit = .ok () := if_neg (by omega)
  have hlength := length_datagram p.packetType (p.flags.bitor encryptedFlag) p.connectionId
    p.packetNumber (payload.length + aeadTagLen) (ciphertext ++ tag)
    (show ([0, 0, 0, 0] : Bytes).length = 4 from rfl)
  have hsize : ensureDatagramSize (fixedHeaderLen + (ciphertext ++ tag).length) limit = .ok () :=
    if_neg (by omega)
  rw [encodePacketWithCrypto, if_neg hfalse, bind_of_ok hpayload]
  dsimp only
  rw [if_neg (Nat.not_lt.2 hlen), bind_of_ok hvalid, PacketCrypto.sealPacket, hseal]
  dsimp only
  rw [headerBytes_append, hlength, bind_of_ok hsize]
  rfl

/-- An opened packet passes the window if its number does. -/
theorem decodeEncryptedPacket_of {header : PacketHeader} {payload plaintext associatedData : Bytes}
    {replay : ReplayWindow} {frames : List Frame}
    (hheader : decodeHeaderAndLengths bytes limit = .ok header)
    (hflag : header.flags.contains encryptedFlag = true)
    (hdrop : bytes.drop header.headerLen = payload) (hlen : aeadTagLen ≤ payload.length)
    (hchecksum : verifyChecksum bytes header = .ok ())
    (hdata : zeroed (bytes.take fixedHeaderLen) 26 30 = associatedData)
    (hopen : suite.decrypt (receiver.keys.inboundKey receiver.role)
      (receiver.keys.packetNonce header.packetNumber) associatedData
      (payload.take (payload.length - aeadTagLen)) (payload.drop (payload.length - aeadTagLen)) =
        some plaintext)
    (hreplay : receiver.replay.checkAndMark header.packetNumber = .ok replay)
    (hframes : decodeFrames plaintext = .ok frames) :
    decodeEncryptedPacket suite bytes limit receiver =
      (.ok ⟨header.packetType, header.flags, header.connectionId, header.packetNumber, frames⟩,
        { receiver with replay := replay }) := by
  have htrue : ¬ (!header.flags.contains encryptedFlag) = true := by simp [hflag]
  have hopened : receiver.openPacket suite header.packetNumber associatedData payload =
      .ok (plaintext, { receiver with replay := replay }) := by
    rw [PacketCrypto.openPacket, if_neg (Nat.not_lt.2 hlen)]
    dsimp only
    rw [hopen]
    dsimp only
    rw [hreplay]
  rw [decodeEncryptedPacket, bind_of_ok hheader, if_neg htrue, hdrop, if_neg (Nat.not_lt.2 hlen),
    bind_of_ok hchecksum]
  dsimp only
  rw [hdata, hopened]
  dsimp only [pure, Except.pure]
  rw [bind_of_ok hframes]

/-- Sealing and opening agree. A packet that is encoded within sixteen bytes of
the limit is sealed by an end of the connection in sixteen bytes more, which is
the length a flush counts for it; and the other end, if its window lets the
number through, opens it as that packet with the flag of encryption set and the
delays of acknowledgements truncated to whole microseconds. -/
theorem sealed_round_trip (aead : suite.Aead) (typed : p.Typed) (keys : sender.keys.Typed)
    (hkeys : receiver.keys = sender.keys) (hroles : sender.role ≠ receiver.role)
    (hlimit : limit ≤ 65535) (h : encodePacket p (limit - aeadTagLen) = .ok bytes) :
    ∃ sealed, encodePacketWithCrypto suite p limit sender = .ok sealed ∧
      sealed.length = bytes.length + 16 ∧
      (∀ c : Connection, c.config.maxDatagramSize = limit → c.encrypts p.packetType = true →
        c.encodedLen p = .ok sealed.length) ∧
      ∀ replay, receiver.replay.checkAndMark p.packetNumber = .ok replay →
        decodeEncryptedPacket suite sealed limit receiver =
          (.ok { p.truncated with flags := p.flags.bitor encryptedFlag },
            { receiver with replay := replay }) := by
  obtain ⟨hflag, payload, hpayload, hfits, rfl⟩ := encodePacket_inv h
  have hmin : fixedHeaderLen = 30 := rfl
  have htag : aeadTagLen = 16 := rfl
  have hlen : payload.length + aeadTagLen ≤ 0xffff := by omega
  obtain ⟨ciphertext, tag, hseal⟩ := aead.seals (sender.keys.outboundKey sender.role)
    (sender.keys.packetNonce p.packetNumber)
    (headerBytes p.packetType (p.flags.bitor encryptedFlag) p.connectionId p.packetNumber
      (payload.length + aeadTagLen)) payload (keys.outbound _) (keys.nonce _) (by omega)
  obtain ⟨hcipher, htagLen⟩ := suite.encrypt_length hseal
  have hsum : (ciphertext ++ tag).length = payload.length + aeadTagLen := by
    rw [List.length_append, hcipher, htagLen]
  obtain ⟨hbits, hknown, hcontains⟩ := bitor_encrypted typed.flags typed.known
  have hwithin : fixedHeaderLen + (ciphertext ++ tag).length ≤ limit := by omega
  have hencode := encodePacketWithCrypto_of hflag hpayload hlen hseal hwithin
  rw [← hsum] at hencode
  refine ⟨_, hencode, ?_⟩
  obtain ⟨header, hheader, hchecksum, htype, hflags, hheaderLen, hid, hnumber, hdrop, hdata,
      hlength⟩ :=
    stamped_header hbits hknown typed.connection typed.number
      (show (ciphertext ++ tag).length < 2 ^ 16 by omega) hwithin
      (show stamp (datagram p.packetType _ _ _ _ _ _) = _ from rfl)
  have hplain : (stamp (datagram p.packetType p.flags p.connectionId p.packetNumber payload.length
      [0, 0, 0, 0] payload)).length = fixedHeaderLen + payload.length := by
    rw [stamp_datagram, length_datagram _ _ _ _ _ _ (length_beBytes ..)]
  refine ⟨by omega, ?_, fun replay hreplay => ?_⟩
  · intro c hconfig hencrypts
    have hwhole := encodePacket_of hflag hpayload
      (show fixedHeaderLen + payload.length ≤ limit by omega)
    have hmax : ¬ fixedHeaderLen + payload.length + aeadTagLen > limit := by omega
    rw [Connection.encodedLen, hconfig, hwhole]
    dsimp only
    rw [hencrypts, if_pos rfl, hplain, if_neg hmax, hlength, hsum, Nat.add_assoc]
  · have hsplit : (ciphertext ++ tag).length - aeadTagLen = ciphertext.length := by omega
    have hopen : suite.decrypt (receiver.keys.inboundKey receiver.role)
        (receiver.keys.packetNonce header.packetNumber)
        (headerBytes p.packetType (p.flags.bitor encryptedFlag) p.connectionId p.packetNumber
          (ciphertext ++ tag).length)
        ((ciphertext ++ tag).take ((ciphertext ++ tag).length - aeadTagLen))
        ((ciphertext ++ tag).drop ((ciphertext ++ tag).length - aeadTagLen)) = some payload := by
      rw [hsplit, List.take_left, List.drop_left, hkeys, SessionKeys.inbound_of_ne hroles, hnumber,
        hsum]
      exact aead.opens _ _ _ _ _ _ hseal
    rw [← hheaderLen] at hdrop
    rw [← hnumber] at hreplay
    rw [decodeEncryptedPacket_of hheader (hflags ▸ hcontains) hdrop (by omega) hchecksum hdata hopen
      hreplay (decodeFrames_of_encode typed.frames hpayload), htype, hflags, hid, hnumber]
    rfl

/-! ### One sealed packet

The cipher on one input, computed with the real one: the packet of the sample
above from the client to the server of the sample exchange. -/

/-- The key stream of the packet. -/
def sampleKeystream : Bytes := beBytes 19 0x8fad86efebf1b7a0a0e4b4c62536bf90559c5f

def sampleTag : Bytes := beBytes 16 0x559ba869c1ae2d5867eceaa2c7ece358

/-- The bytes under the key stream. -/
def mask (bytes : Bytes) : Bytes :=
  bytes.mapIdx fun index byte => byte ^^^ (sampleKeystream[index]?).getD 0

theorem mask_mask (bytes : Bytes) : mask (mask bytes) = bytes := by
  refine List.ext_getElem (by simp [mask]) fun i h1 h2 => ?_
  simp only [mask, List.getElem_mapIdx, UInt8.xor_assoc, UInt8.xor_self, UInt8.xor_zero]

def sealingSuite : Suite := { sampleSuite with
  encrypt := fun _ _ _ plaintext => some (mask plaintext, sampleTag)
  decrypt := fun _ _ _ ciphertext tag => if tag = sampleTag then some (mask ciphertext) else none
  encrypt_length := by
    intro key nonce associatedData plaintext ciphertext tag h
    cases h
    exact ⟨by simp [mask], rfl⟩ }

theorem sealingSuite_aead : sealingSuite.Aead := by
  refine ⟨fun _ _ _ plaintext _ _ _ => ⟨mask plaintext, sampleTag, rfl⟩, ?_⟩
  intro key nonce associatedData plaintext ciphertext tag h
  cases h
  show (if sampleTag = sampleTag then some (mask (mask plaintext)) else none) = some plaintext
  rw [if_pos rfl, mask_mask]

/-- The keys of the sample exchange. -/
def sampleKeys : SessionKeys where
  clientToServer := beBytes 32 0x79289ef04bb06d28a048df7a6638c6dbf3a475d405ff08824cd831b2f160f387
  serverToClient := beBytes 32 0x0586100ed93bd044300decfab816765b0e4bb91199a6c9693038c54c89e469ba
  finished := beBytes 32 0x75beb77b53fe8860dd77845d613889cb6c11c8789011febee2416520ea672061
  nonceSalt := beBytes 4 0xe5caa98d

theorem sealed_round_trip_sample :
    ∃ sealed, encodePacketWithCrypto sealingSuite samplePacket 1200 (.new .client sampleKeys) =
        .ok sealed ∧ sealed.length = 65 ∧
      ∃ replay, decodeEncryptedPacket sealingSuite sealed 1200 (.new .server sampleKeys) =
        (.ok { samplePacket.truncated with flags := ⟨3⟩ },
          { PacketCrypto.new .server sampleKeys with replay := replay }) := by
  have hencode : encodePacket samplePacket (1200 - aeadTagLen) = _ :=
    encodePacket_of (by decide) samplePacket_encoded (by decide)
  have hkeys : (PacketCrypto.new .client sampleKeys).keys.Typed := ⟨rfl, rfl, rfl⟩
  have hsame : (PacketCrypto.new .server sampleKeys).keys =
      (PacketCrypto.new .client sampleKeys).keys :=
    rfl
  obtain ⟨sealed, hsealed, hlength, -, hopen⟩ := sealed_round_trip sealingSuite_aead
    samplePacket_typed hkeys hsame (by decide) (by decide) hencode
  refine ⟨sealed, hsealed, ?_, _, hopen _ rfl⟩
  rw [hlength, stamp_datagram, length_datagram _ _ _ _ _ _ (length_beBytes ..)]
  rfl

end

end DartUdp.Udp
