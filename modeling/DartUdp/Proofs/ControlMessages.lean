import DartUdp.Proofs.ControlCodec

/-!
# The round trip of a control message and the image of its decoder

An encoded message decodes to itself. The other way the decoder is not exact: it
takes the letters of a pairing code in either case, and it takes a path check's
response whose observed address the encoder refuses.

The module is for `decode_encode` and `encode_decode`. `encodeBody_reads` and
`decodeBody_takes` are the bodies, `readMessage_reads` and `readMessage_takes` the
envelopes, and `unusableResponse_eq` tells by its bytes the one message that is not
encoded again.
-/

namespace DartUdp.Protocol

open DartUdp.Lib
open ByteEnum (toU8 tryFrom)

section

variable {limits : CodecLimits} {message : Message} {out : Bytes}

/-! ## Bodies -/

def Message.candidates : Message → List Candidate
  | .pairing message => message.candidates
  | _ => []

def Message.pairingCode : Message → Option PairingCode
  | .pairing message => message.pairingCode
  | _ => none

def Message.observedAddress : Message → Option SocketAddr
  | .path (.response _ _ _ _ observedAddress _) => some observedAddress
  | _ => none

theorem decodeBody_pairing (message : PairingControl) :
    decodeBody message.messageType limits =
      .pairing <$> decodePairing message.messageType limits := by
  have hcode : toU8 message.messageType < 20 := by cases message <;> exact of_decide_eq_true rfl
  rw [decodeBody, if_neg (UInt8.not_le.2 (UInt8.lt_trans hcode (by decide))),
    if_neg (UInt8.not_le.2 hcode)]

theorem decodeBody_transfer (message : TransferControl) :
    decodeBody message.messageType limits =
      .transfer <$> decodeTransfer message.messageType limits := by
  have hcode : toU8 message.messageType ≥ 20 ∧ toU8 message.messageType < 40 := by
    cases message <;> exact of_decide_eq_true rfl
  rw [decodeBody, if_neg (UInt8.not_le.2 hcode.2), if_pos hcode.1]

theorem decodeBody_path (message : PathCheck) :
    decodeBody message.messageType limits = .path <$> decodePath message.messageType := by
  have hcode : toU8 message.messageType ≥ 40 := by cases message <;> exact of_decide_eq_true rfl
  rw [decodeBody, if_pos hcode]

theorem encodeBody_reads (hlimit : limits.maxCandidates ≤ maxCandidates)
    (hindex : ∀ c ∈ message.candidates, c.interfaceIndex ≠ some noInterface)
    (hvalid : message.validate = .ok ()) (h : encodeBody message limits = .ok out) :
    Reads (decodeBody message.messageType limits) out message := by
  cases message with
  | pairing message =>
      have hread : Reads (decodePairing message.messageType limits) out message :=
        (encodePairing_reads hlimit hindex h).last ((Reads.lift hvalid).last (.pure message))
      rw [Message.messageType, decodeBody_pairing]
      exact hread.map
  | transfer message =>
      have hread : Reads (decodeTransfer message.messageType limits) out message :=
        (encodeTransfer_reads h).last ((Reads.lift hvalid).last (.pure message))
      rw [Message.messageType, decodeBody_transfer]
      exact hread.map
  | path message =>
      obtain rfl : _ = out := Except.ok.inj h
      rw [Message.messageType, decodeBody_path]
      exact (encodePath_reads message).map

/-- The encoder puts the message down as it was read, but refuses it if its
observed address is unusable. -/
structure Readable (limits : CodecLimits) (messageType : MessageType) (used : Bytes)
    (message : Message) : Prop where
  type : message.messageType = messageType
  written : ∃ out, encodeBody message limits = .ok out ∧ Recased message.pairingCode used out
  valid : message.validate = .ok () ↔ message.observedAddress.any SocketAddr.unusable = false

theorem decodeBody_takes (messageType : MessageType) :
    Takes (decodeBody messageType limits) (Readable limits messageType) := by
  unfold decodeBody
  split
  · refine .map ((decodePath_takes messageType).mono ?_)
    rintro used message ⟨htype, hout⟩
    refine ⟨htype, ⟨_, rfl, hout.symm⟩, ?_⟩
    cases message with
    | request => exact ⟨fun _ => rfl, fun _ => rfl⟩
    | response _ _ _ _ address _ =>
        show (if address.unusable then _ else _) = _ ↔ _
        cases haddress : address.unusable with
        | false => simp [Message.observedAddress, haddress]
        | true => simp [Message.observedAddress, haddress]
  · split
    · refine .map ((readTransfer_takes messageType).bind fun message used hmessage =>
        (Takes.lift _).bind fun _ _ hvalid => .pure ?_)
      obtain ⟨rfl, hvalid⟩ := hvalid
      rw [List.append_nil, List.append_nil]
      exact ⟨hmessage.1, ⟨used, hmessage.2, rfl⟩, fun _ => rfl, fun _ => hvalid⟩
    · refine .map ((readPairing_takes messageType).bind fun message used hmessage =>
        (Takes.lift _).bind fun _ _ hvalid => .pure ?_)
      obtain ⟨rfl, hvalid⟩ := hvalid
      rw [List.append_nil, List.append_nil]
      exact ⟨hmessage.1, hmessage.2, fun _ => rfl, fun _ => hvalid⟩

/-! ## Envelopes -/

theorem validateLimits_inv (h : validateLimits limits = .ok ()) :
    limits.maxMessageLen ≤ maxControlMessageLen ∧ limits.maxCandidates ≤ maxCandidates := by
  obtain ⟨hlen, h⟩ := ok_of_guard h
  obtain ⟨hcandidates, -⟩ := ok_of_guard h
  exact ⟨Nat.not_lt.1 (not_or.1 hlen).2, Nat.not_lt.1 hcandidates⟩

theorem MessageFlags.fromBits_bits (flags : MessageFlags) :
    MessageFlags.fromBits flags.bits = .ok flags := dif_pos flags.known

theorem MessageFlags.bits_of_fromBits {bits : UInt16} {flags : MessageFlags}
    (h : MessageFlags.fromBits bits = .ok flags) : flags.bits = bits := by
  unfold MessageFlags.fromBits at h
  split at h
  · cases h
    rfl
  · cases h

theorem maxMessageLenOf_le (messageType : MessageType) :
    maxMessageLenOf messageType limits ≤ limits.maxMessageLen := by
  unfold maxMessageLenOf
  split
  · exact Nat.min_le_left _ _
  · exact le_rfl

/-- The first sixteen bytes of a message. -/
def header (length : Nat) (envelope : Envelope) : Bytes :=
  [beBytes 4 length, Writer.u8 (toU8 envelope.messageType), Writer.u8 envelope.version,
    Writer.u16 envelope.flags.bits, Writer.u64 envelope.requestId].flatten

theorem length_header (length : Nat) (envelope : Envelope) :
    (header length envelope).length = envelopeLen := rfl

/-- What the encoder answers, when it does. -/
theorem encodeMessage_eq (requestId : UInt64) (flags : MessageFlags)
    (hlimits : validateLimits limits = .ok ()) (hvalid : message.validate = .ok ())
    (hbody : encodeBody message limits = .ok out) (bytes : Bytes) :
    encodeMessageWithLimits message requestId flags limits = .ok bytes ↔
      envelopeLen + out.length ≤ maxMessageLenOf message.messageType limits ∧
        bytes = header (envelopeLen + out.length)
          ⟨message.messageType, protocolVersion, flags, requestId⟩ ++ out := by
  have hmax : maxMessageLenOf message.messageType limits ≤ u32Max :=
    (maxMessageLenOf_le _).trans ((validateLimits_inv hlimits).1.trans (by decide))
  rw [encodeMessageWithLimits, bind_of_ok hlimits, bind_of_ok hvalid, bind_of_ok hbody]
  constructor
  · intro h
    obtain ⟨hfits, hout⟩ := ok_of_guard h
    refine ⟨Nat.not_lt.1 (not_or.1 hfits).1, ?_⟩
    rw [← Except.ok.inj hout]
    simp [header]
  · rintro ⟨hfits, rfl⟩
    have hguard : ¬ (envelopeLen + out.length > maxMessageLenOf message.messageType limits ∨
        envelopeLen + out.length > u32Max) := by omega
    refine (if_neg hguard).trans ?_
    simp [header]
    rfl

theorem readMessage_reads (requestId : UInt64) (flags : MessageFlags)
    (hlimits : validateLimits limits = .ok ())
    (hindex : ∀ c ∈ message.candidates, c.interfaceIndex ≠ some noInterface)
    (hvalid : message.validate = .ok ()) (hbody : encodeBody message limits = .ok out)
    (hfits : envelopeLen + out.length ≤ maxMessageLenOf message.messageType limits) :
    Reads (readMessage (envelopeLen + out.length) limits)
      (header (envelopeLen + out.length) ⟨message.messageType, protocolVersion, flags, requestId⟩ ++
        out)
      ⟨⟨message.messageType, protocolVersion, flags, requestId⟩, message⟩ := by
  obtain ⟨hmax, hcandidates⟩ := validateLimits_inv hlimits
  have hlen : envelopeLen + out.length ≤ limits.maxMessageLen :=
    hfits.trans (maxMessageLenOf_le _)
  have hdeclared : ofBe (beBytes 4 (envelopeLen + out.length)) = envelopeLen + out.length := by
    have hsmall : envelopeLen + out.length < 256 ^ 4 :=
      Nat.lt_of_le_of_lt (hlen.trans hmax) (by decide)
    rw [ofBe_beBytes, Nat.mod_eq_of_lt hsmall]
  have hitem : ¬ (message.messageType = .manifestItem ∧
      envelopeLen + out.length > maxManifestItemLen) := by
    rintro ⟨htype, hlong⟩
    rw [maxMessageLenOf, if_pos htype] at hfits
    omega
  unfold readMessage header
  refine Reads.cast ((exactly_reads (length_beBytes _ _)).bind ?_) (List.append_assoc _ _ _)
  dsimp only
  rw [hdeclared]
  refine .guard (by omega) <| .guard (by omega) <| .guard (not_not.2 rfl) <| (u8_reads _).bind <|
    (Reads.lift (ByteEnum.tryFrom_toU8 _)).bind <| .guard hitem <| (u8_reads _).bind <|
    .guard (not_not.2 rfl) <| (u16_reads _).bind <|
    (Reads.lift (MessageFlags.fromBits_bits flags)).bind <| (u64_reads _).bind <| ?_
  exact (encodeBody_reads hcandidates hindex hvalid hbody).last (.pure _)

/-- What the decoder knows of the bytes it has taken. -/
structure Accepted (limits : CodecLimits) (length : Nat) (used : Bytes)
    (decoded : DecodedMessage) : Prop where
  version : decoded.envelope.version = protocolVersion
  fits : length ≤ maxMessageLenOf decoded.envelope.messageType limits
  body : ∃ body, used = header length decoded.envelope ++ body ∧
    Readable limits decoded.envelope.messageType body decoded.message

theorem readMessage_takes (length : Nat) :
    Takes (readMessage length limits) (Accepted limits length) := by
  refine (exactly_takes _ _).bind fun _ declared hdeclared => .guard fun _ => .guard fun hmax =>
    .guard fun hlen => u8_takes.field fun code => (Takes.lift _).bind fun messageType _ htype =>
    .guard fun hitem => u8_takes.field fun version => .guard fun hversion =>
    u16_takes.field fun bits => (Takes.lift _).bind fun flags _ hflags =>
    u64_takes.field fun requestId => (decodeBody_takes messageType).bind fun message body hbody =>
    .pure ?_
  obtain ⟨rfl, hfour⟩ := hdeclared
  obtain ⟨rfl, htype⟩ := htype
  obtain ⟨rfl, hflags⟩ := hflags
  have hlength := not_not.1 hlen
  refine ⟨not_not.1 hversion, ?_, body, ?_, hbody⟩
  · rw [hlength] at hmax hitem
    unfold maxMessageLenOf
    split
    · next hmanifest =>
        exact le_min (Nat.not_lt.1 hmax) (Nat.not_lt.1 fun h => hitem ⟨hmanifest, h⟩)
    · exact Nat.not_lt.1 hmax
  · have hbytes := beBytes_ofBe declared
    rw [hfour, hlength] at hbytes
    rw [← hbytes]
    simp only [header, MessageFlags.bits_of_fromBits hflags, ByteEnum.toU8_of_tryFrom htype,
      List.flatten_cons, List.flatten_nil, List.nil_append, List.append_nil, List.append_assoc]

/-! ## What an encoded message decodes to -/

/-- **An encoded message decodes to itself**, with its type, the version, its
flags and its request. -/
theorem decode_encode (message : Message) (requestId : UInt64) (flags : MessageFlags)
    (limits : CodecLimits) (bytes : Bytes)
    (hindex : ∀ c ∈ message.candidates, c.interfaceIndex ≠ some noInterface)
    (h : encodeMessageWithLimits message requestId flags limits = .ok bytes) :
    decodeMessageWithLimits bytes limits =
      .ok ⟨⟨message.messageType, protocolVersion, flags, requestId⟩, message⟩ := by
  obtain ⟨_, hlimits, hafter⟩ := ok_of_bind h
  obtain ⟨_, hvalid, hafter⟩ := ok_of_bind hafter
  obtain ⟨out, hbody, -⟩ := ok_of_bind hafter
  obtain ⟨hfits, rfl⟩ := (encodeMessage_eq requestId flags hlimits hvalid hbody bytes).1 h
  have hread := readMessage_reads requestId flags hlimits hindex hvalid hbody hfits
  generalize hbytes : header (envelopeLen + out.length)
    ⟨message.messageType, protocolVersion, flags, requestId⟩ ++ out = bytes at hread
  have hlen : bytes.length = envelopeLen + out.length := by
    rw [← hbytes, List.length_append, length_header]
  have hmax := hfits.trans (maxMessageLenOf_le _)
  rw [decodeMessageWithLimits, bind_of_ok hlimits, if_neg (by omega), if_neg (by omega), hlen]
  exact bind_of_ok (hread.finish _)

/-- A list of a host and a relay candidate. -/
def sampleList : Message :=
  .pairing (.candidateList (Vector.replicate 16 1)
    [⟨Vector.replicate 16 2, .host, some (.v4 #v[192, 168, 0, 1] 9000), 7, some 3⟩,
      ⟨Vector.replicate 16 3, .relay, none, 1, none⟩]
    ⟨.blake3, Vector.replicate 32 4⟩)

def sampleListBytes : Bytes :=
  [0, 0, 0, 121, 7, 1, 0, 1, 0, 0, 0, 0, 0, 0, 0, 5] ++ List.replicate 16 1 ++ [0, 2] ++
    List.replicate 16 2 ++ [1, 4, 192, 168, 0, 1, 35, 40, 0, 7, 0, 0, 0, 3] ++
    List.replicate 16 3 ++ [5, 0, 0, 1, 255, 255, 255, 255] ++ 1 :: List.replicate 32 4

theorem decode_encode_sample :
    decodeMessageWithLimits sampleListBytes {} =
      .ok ⟨⟨.candidateList, 1, ⟨1, by decide⟩, 5⟩, sampleList⟩ :=
  decode_encode sampleList 5 ⟨1, by decide⟩ {} sampleListBytes (by decide) (by decide +kernel)

/-! ## What a decoded message encodes to -/

/-- The octets and the port of an IPv4 address that no path can have. -/
def unusableV4 (octets port : Bytes) : Bool :=
  octets.all (· == 0) || octets.head?.any (fun first => decide (224 ≤ first ∧ first ≤ 239)) ||
    port.all (· == 0)

/-- The octets and the port of an IPv6 address that no path can have. -/
def unusableV6 (octets port : Bytes) : Bool :=
  octets.all (· == 0) || octets.head? == some 255 || port.all (· == 0)

/-- The bytes are those of a path check's response, whose observed address, in
byte 96 and the following, is unspecified, multicast or without a port. -/
def unusableResponse (bytes : Bytes) : Bool :=
  bytes[4]? == some 41 &&
    match bytes.drop 96 with
    | 4 :: address => unusableV4 (address.take 4) ((address.drop 4).take 2)
    | 6 :: address => unusableV6 (address.take 16) ((address.drop 16).take 2)
    | _ => false

theorem all_zero_u16 (port : UInt16) : (Writer.u16 port).all (· == 0) = (port == 0) := by
  have hport := port.toNat_lt
  rw [Bool.eq_iff_iff, beq_iff_eq, ← UInt16.toNat_inj]
  simp [Writer.u16, beBytes, ← UInt8.toNat_inj]
  omega

theorem unusable_v4 (ip : Vector UInt8 4) (port : UInt16) :
    (SocketAddr.v4 ip port).unusable = unusableV4 ip.toList (Writer.u16 port) := by
  have hhead : ip.toList.head? = some ip[0] := by
    rw [List.head?_eq_getElem?]
    simp
  rw [unusableV4, all_zero_u16, hhead]
  rfl

theorem unusable_v6 (ip : Vector UInt8 16) (port : UInt16) (flowinfo scopeId : UInt32) :
    (SocketAddr.v6 ip port flowinfo scopeId).unusable = unusableV6 ip.toList (Writer.u16 port) := by
  have hhead : ip.toList.head? = some ip[0] := by
    rw [List.head?_eq_getElem?]
    simp
  rw [unusableV6, all_zero_u16, hhead]
  rfl

theorem unusableResponse_eq {length : Nat} {envelope : Envelope} {body : Bytes}
    (h : Readable limits envelope.messageType body message) :
    unusableResponse (header length envelope ++ body) =
      message.observedAddress.any SocketAddr.unusable := by
  have htype : (header length envelope ++ body)[4]? = some (toU8 envelope.messageType) := rfl
  rw [unusableResponse, htype, ← h.type]
  cases message with
  | pairing message => cases message <;> rfl
  | transfer message => cases message <;> rfl
  | path message =>
      cases message with
      | request => rfl
      | response transfer transaction token candidate address time =>
          obtain ⟨_, hout, rfl⟩ := h.written
          obtain rfl : _ = body := Except.ok.inj hout
          let ids := header length envelope ++ (Writer.id transfer ++ (Writer.id transaction ++
            (Writer.bytesFixed token ++ Writer.id candidate)))
          have hids : ids.length = 96 := by
            simp [ids, length_header, Writer.id, Writer.bytesFixed, envelopeLen]
          have hsplit : header length envelope ++ encodePath (.response transfer transaction token
              candidate address time) = ids ++ (Writer.socketAddr address ++ Writer.u64 time) := by
            simp [ids, encodePath]
          rw [hsplit, List.drop_left' hids]
          cases address with
          | v4 ip port =>
              have hip : ip.toList.length = 4 := by simp
              have hport : (Writer.u16 port).length = 2 := rfl
              show unusableV4 ((ip.toList ++ Writer.u16 port ++ Writer.u64 time).take 4)
                (((ip.toList ++ Writer.u16 port ++ Writer.u64 time).drop 4).take 2) =
                  SocketAddr.unusable _
              rw [List.append_assoc, List.take_left' hip, List.drop_left' hip,
                List.take_left' hport, unusable_v4]
          | v6 ip port flowinfo scopeId =>
              have hip : ip.toList.length = 16 := by simp
              have hport : (Writer.u16 port).length = 2 := rfl
              let rest := Writer.u32 flowinfo ++ Writer.u32 scopeId ++ Writer.u64 time
              have hrest : Writer.socketAddr (.v6 ip port flowinfo scopeId) ++ Writer.u64 time =
                  6 :: (ip.toList ++ (Writer.u16 port ++ rest)) := by
                simp [Writer.socketAddr, Writer.u8, Writer.bytesFixed, rest]
              rw [hrest]
              show unusableV6 ((ip.toList ++ (Writer.u16 port ++ rest)).take 16)
                (((ip.toList ++ (Writer.u16 port ++ rest)).drop 16).take 2) = SocketAddr.unusable _
              rw [List.take_left' hip, List.drop_left' hip, List.take_left' hport, unusable_v6]

theorem Recased.append {code : Option PairingCode} {used out : Bytes} (h : Recased code used out)
    (front : Bytes) : Recased code (front ++ used) (front ++ out) := by
  cases code with
  | none => exact congrArg (front ++ ·) h
  | some code =>
      obtain ⟨before, text, back, hsame, rfl, rfl⟩ := h
      exact ⟨front ++ before, text, back, hsame, (List.append_assoc ..).symm,
        (List.append_assoc ..).symm⟩

theorem Recased.length {code : Option PairingCode} {used out : Bytes} (h : Recased code used out) :
    out.length = used.length := by
  cases code with
  | none => exact congrArg List.length h.symm
  | some code =>
      obtain ⟨front, text, back, hsame, rfl, rfl⟩ := h
      have hlen : text.length = code.bytes.length := by rw [← hsame, List.length_map]
      simp only [List.length_append, hlen]

theorem decodeMessage_accepted {bytes : Bytes} {decoded : DecodedMessage}
    (h : decodeMessageWithLimits bytes limits = .ok decoded) :
    validateLimits limits = .ok () ∧ Accepted limits bytes.length bytes decoded := by
  obtain ⟨_, hlimits, h⟩ := ok_of_bind h
  obtain ⟨_, h⟩ := ok_of_guard h
  obtain ⟨_, h⟩ := ok_of_guard h
  obtain ⟨⟨_, rest⟩, hread, h⟩ := ok_of_bind h
  cases h
  exact ⟨hlimits, (readMessage_takes _).finish hread⟩

/-- A decoded message is written again, in the bytes it was read from but for the
case of its pairing code, exactly if these bytes are not those of a response
with an unusable address. -/
theorem encode_decode (bytes : Bytes) (limits : CodecLimits) (decoded : DecodedMessage)
    (h : decodeMessageWithLimits bytes limits = .ok decoded) :
    (∃ out, encodeMessageWithLimits decoded.message decoded.envelope.requestId
        decoded.envelope.flags limits = .ok out ∧ Recased decoded.message.pairingCode bytes out) ↔
      unusableResponse bytes = false := by
  obtain ⟨hlimits, hversion, hfits, body, hbytes, hread⟩ := decodeMessage_accepted h
  have hunusable : unusableResponse bytes =
      decoded.message.observedAddress.any SocketAddr.unusable :=
    hbytes ▸ unusableResponse_eq hread
  rw [hunusable, ← hread.valid]
  constructor
  · rintro ⟨out, hout, -⟩
    obtain ⟨_, _, hout⟩ := ok_of_bind hout
    exact (ok_of_bind hout).choose_spec.1
  · intro hvalid
    obtain ⟨out, hout, hcased⟩ := hread.written
    have hlen : bytes.length = envelopeLen + out.length := by
      rw [hcased.length, hbytes, List.length_append, length_header]
    refine ⟨_, (encodeMessage_eq _ _ hlimits hvalid hout _).2 ⟨?_, rfl⟩, ?_⟩
    · rwa [← hlen, hread.type]
    · have henvelope : (⟨decoded.message.messageType, protocolVersion, decoded.envelope.flags,
          decoded.envelope.requestId⟩ : Envelope) = decoded.envelope := by
        rw [hread.type, ← hversion]
      rw [henvelope, ← hlen]
      nth_rewrite 1 [hbytes]
      exact hcased.append _

/-- A request to join with a code in small letters. -/
def joinBytes : Bytes :=
  [0, 0, 0, 73, 3, 1, 0, 0, 0, 0, 0, 0, 0, 0, 0, 1, 8] ++ ascii "abcd2345" ++
    List.replicate 16 2 ++ List.replicate 32 3

def joined : DecodedMessage where
  envelope := ⟨.joinPairing, 1, ⟨0, by decide⟩, 1⟩
  message := .pairing (.joinPairing ⟨ascii "ABCD2345", by decide, by decide, by decide +kernel⟩
    (Vector.replicate 16 2) (Vector.replicate 32 3))

theorem encode_decode_sample :
    (∃ out, encodeMessageWithLimits joined.message 1 ⟨0, by decide⟩ {} = .ok out ∧
        Recased joined.message.pairingCode joinBytes out) ↔ unusableResponse joinBytes = false :=
  encode_decode joinBytes {} joined (by decide +kernel)

/-- A response that has observed the address 127.0.0.1 with port 0. -/
def portlessResponse : Bytes :=
  [0, 0, 0, 111, 41, 1, 0, 0, 0, 0, 0, 0, 0, 0, 0, 0] ++ List.replicate 80 0 ++
    [4, 127, 0, 0, 1, 0, 0] ++ List.replicate 8 0

def portless : DecodedMessage where
  envelope := ⟨.pathCheckResponse, 1, ⟨0, by decide⟩, 0⟩
  message := .path (.response (Vector.replicate 16 0) (Vector.replicate 16 0)
    (Vector.replicate 32 0) (Vector.replicate 16 0) (.v4 #v[127, 0, 0, 1] 0) 0)

theorem portless_decodes :
    decodeMessageWithLimits portlessResponse {} = .ok portless ∧
      encodeMessageWithLimits portless.message portless.envelope.requestId portless.envelope.flags
        {} = .error (.invalidValue "path check observed address") := by
  decide +kernel

end

end DartUdp.Protocol
