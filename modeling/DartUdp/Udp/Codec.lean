import DartUdp.Udp.Crypto

/-!
# Datagrams

A datagram is a header of thirty bytes and the frames. The last four bytes of
the header are the CRC-32C of the whole datagram, taken with these four bytes
as zero. An encrypted datagram has its frames sealed, with the header as
associated data.
-/

namespace DartUdp.Udp

open DartUdp.Lib

def defaultMaxDatagramSize : Nat := 1200

def maxFrameCount : Nat := 64

/-! ## The checksum -/

def crc32cPolynomial : Nat := 0x82f63b78

/-- One bit of the CRC. -/
def crcBit (checksum : Nat) : Nat :=
  if checksum &&& 1 = 1 then (checksum >>> 1) ^^^ crc32cPolynomial else checksum >>> 1

/-- One byte of the CRC. -/
def crcByte (checksum : Nat) (byte : UInt8) : Nat := crcBit^[8] (checksum ^^^ byte.toNat)

/-- The bytes from `zeroStart` up to `zeroEnd` count as zero. -/
def zeroed (bytes : Bytes) (zeroStart zeroEnd : Nat) : Bytes :=
  bytes.mapIdx fun index byte => if zeroStart ≤ index ∧ index < zeroEnd then 0 else byte

/-- `crc32c_with_zeroed_range`. -/
def crc32cWithZeroedRange (bytes : Bytes) (zeroStart zeroEnd : Nat) : Nat :=
  u32Max ^^^ (zeroed bytes zeroStart zeroEnd).foldl crcByte u32Max

/-! ## Encoding -/

/-- `validate_datagram_limit`. -/
def validateDatagramLimit (maxDatagramSize : Nat) : Except ProtocolError Unit :=
  if maxDatagramSize < fixedHeaderLen then .error (.invalidValue "max_datagram_size") else .ok ()

/-- `ensure_datagram_size`. -/
def ensureDatagramSize (actual maximum : Nat) : Except ProtocolError Unit :=
  if actual > maximum then .error (.datagramTooLarge maximum actual) else .ok ()

/-- `header_bytes`. -/
def headerBytes (packetType : PacketType) (flags : PacketFlags)
    (connectionId packetNumber payloadLen : Nat) : Bytes :=
  beBytes 2 magic ++ beBytes 1 version ++ beBytes 1 packetType.code ++ beBytes 2 flags.bits ++
    beBytes 2 fixedHeaderLen ++ beBytes 8 connectionId ++ beBytes 8 packetNumber ++
    beBytes 2 payloadLen ++ [0, 0, 0, 0]

/-- Writes the checksum of the datagram into its header. -/
def stamp (output : Bytes) : Bytes :=
  output.take 26 ++ beBytes 4 (crc32cWithZeroedRange output 26 30) ++ output.drop 30

/-- The loop of `encode_frames`. -/
def writeFrames : List Frame → Except ProtocolError Bytes
  | [] => return []
  | frame :: rest => return (← frame.encode) ++ (← writeFrames rest)

/-- `encode_frames`. -/
def encodeFrames (packet : Packet) : Except ProtocolError Bytes := do
  if packet.frames.isEmpty then throw .emptyPacket
  if packet.frames.length > maxFrameCount then throw (.tooManyFrames maxFrameCount)
  let payload ← writeFrames packet.frames
  if payload.length > 0xffff then throw (.frameTooLarge 0xffff payload.length)
  return payload

/-- `encode_raw_packet`. -/
def encodeRawPacket (packet : Packet) (flags : PacketFlags) (payload : Bytes)
    (maxDatagramSize : Nat) : Except ProtocolError Bytes := do
  validateDatagramLimit maxDatagramSize
  ensureDatagramSize (fixedHeaderLen + payload.length) maxDatagramSize
  return stamp (headerBytes packet.packetType flags packet.connectionId packet.packetNumber
    payload.length ++ payload)

/-- `encode_packet`. -/
def encodePacket (packet : Packet) (maxDatagramSize : Nat) : Except ProtocolError Bytes := do
  if packet.flags.contains encryptedFlag then throw .encryptionNotAllowed
  encodeRawPacket packet packet.flags (← encodeFrames packet) maxDatagramSize

/-- `encode_packet_with_crypto`. -/
def encodePacketWithCrypto (suite : Suite) (packet : Packet) (maxDatagramSize : Nat)
    (crypto : PacketCrypto) : Except ProtocolError Bytes := do
  if packet.flags.contains encryptedFlag then throw .encryptionNotAllowed
  let plaintext ← encodeFrames packet
  let encryptedPayloadLen := plaintext.length + aeadTagLen
  if encryptedPayloadLen > 0xffff then throw (.frameTooLarge 0xffff encryptedPayloadLen)
  validateDatagramLimit maxDatagramSize
  let header := headerBytes packet.packetType (packet.flags.bitor encryptedFlag)
    packet.connectionId packet.packetNumber encryptedPayloadLen
  match crypto.sealPacket suite packet.packetNumber header plaintext with
  | .error error => throw (.crypto error)
  | .ok ciphertext =>
      let output := header ++ ciphertext
      ensureDatagramSize output.length maxDatagramSize
      return stamp output

/-! ## Decoding -/

/-- The big-endian number in `length` bytes from `start` on. -/
def fieldAt (bytes : Bytes) (start length : Nat) : Nat := ofBe ((bytes.drop start).take length)

/-- `decode_header`. -/
def decodeHeader (bytes : Bytes) : Except ProtocolError PacketHeader := do
  if fieldAt bytes 0 2 ≠ magic then throw (.invalidMagic magic (fieldAt bytes 0 2))
  if fieldAt bytes 2 1 ≠ version then throw (.unsupportedVersion (fieldAt bytes 2 1))
  let packetType ← PacketType.tryFrom (fieldAt bytes 3 1)
  let flags ← PacketFlags.fromBits (fieldAt bytes 4 2)
  if fieldAt bytes 6 2 ≠ fixedHeaderLen then
    throw (.invalidHeaderLength fixedHeaderLen (fieldAt bytes 6 2))
  return {
    version := version
    packetType := packetType
    flags := flags
    headerLen := fieldAt bytes 6 2
    connectionId := fieldAt bytes 8 8
    packetNumber := fieldAt bytes 16 8
    payloadLen := fieldAt bytes 24 2
    checksum := fieldAt bytes 26 4 }

/-- `decode_header_and_lengths`. -/
def decodeHeaderAndLengths (bytes : Bytes) (maxDatagramSize : Nat) :
    Except ProtocolError PacketHeader := do
  validateDatagramLimit maxDatagramSize
  if bytes.length < fixedHeaderLen then throw (.datagramTooShort fixedHeaderLen bytes.length)
  if bytes.length > maxDatagramSize then throw (.datagramTooLarge maxDatagramSize bytes.length)
  let header ← decodeHeader bytes
  if header.payloadLen ≠ bytes.length - header.headerLen then
    throw (.payloadLengthMismatch header.payloadLen (bytes.length - header.headerLen))
  return header

/-- `verify_checksum`. -/
def verifyChecksum (bytes : Bytes) (header : PacketHeader) : Except ProtocolError Unit :=
  let expected := crc32cWithZeroedRange bytes 26 30
  if expected ≠ header.checksum then .error (.checksumMismatch expected header.checksum)
  else .ok ()

/-- The loop of `decode_frames`; `room` is how many more frames may follow. -/
def readFrames : (room : Nat) → Reader (List Frame)
  | _, [] => .ok ([], [])
  | 0, _ :: _ => .error (.tooManyFrames maxFrameCount)
  | room + 1, frameType :: rest => do
      let (bodyLen, rest) ← readVarint rest
      if bodyLen > maxFrameBodyLen then throw (.frameTooLarge maxFrameBodyLen bodyLen)
      let (body, rest) ← readExact bodyLen "frame body" rest
      let frame ← Frame.decode frameType.toNat body
      let (frames, rest) ← readFrames room rest
      return (frame :: frames, rest)

/-- `decode_frames`. -/
def decodeFrames (payload : Bytes) : Except ProtocolError (List Frame) := do
  let (frames, _) ← readFrames maxFrameCount payload
  if frames.isEmpty then throw .emptyPacket
  return frames

/-- `decode_plain_packet`. -/
def decodePlainPacket (bytes : Bytes) (header : PacketHeader) : Except ProtocolError Packet := do
  verifyChecksum bytes header
  let payload := bytes.drop header.headerLen
  if payload.isEmpty then throw .emptyPacket
  let frames ← decodeFrames payload
  return ⟨header.packetType, header.flags, header.connectionId, header.packetNumber, frames⟩

/-- `decode_packet`. -/
def decodePacket (bytes : Bytes) (maxDatagramSize : Nat) : Except ProtocolError Packet := do
  let header ← decodeHeaderAndLengths bytes maxDatagramSize
  if header.flags.contains encryptedFlag then throw .encryptedPacketRequiresKeys
  decodePlainPacket bytes header

/-- `decode_encrypted_packet`. The crypto comes back with its replay window
marked as soon as the packet has been opened, also when its frames are then
refused. -/
def decodeEncryptedPacket (suite : Suite) (bytes : Bytes) (maxDatagramSize : Nat)
    (crypto : PacketCrypto) : Except ProtocolError Packet × PacketCrypto :=
  let opened : Except ProtocolError (PacketHeader × Bytes × PacketCrypto) := do
    let header ← decodeHeaderAndLengths bytes maxDatagramSize
    if !header.flags.contains encryptedFlag then throw (.invalidFlags header.flags.bits)
    let payload := bytes.drop header.headerLen
    if payload.length < aeadTagLen then throw (.crypto .encryptedPayloadTooShort)
    verifyChecksum bytes header
    let associatedData := zeroed (bytes.take fixedHeaderLen) 26 30
    match crypto.openPacket suite header.packetNumber associatedData payload with
    | .error error => throw (.crypto error)
    | .ok (plaintext, crypto) => return (header, plaintext, crypto)
  match opened with
  | .error error => (.error error, crypto)
  | .ok (header, plaintext, crypto) =>
      ((do
        let frames ← decodeFrames plaintext
        return ⟨header.packetType, header.flags, header.connectionId, header.packetNumber,
          frames⟩), crypto)

/-- `peek_connection_id`. -/
def peekConnectionId (bytes : Bytes) (maxDatagramSize : Nat) : Except ProtocolError Nat :=
  return (← decodeHeaderAndLengths bytes maxDatagramSize).connectionId

/-- `peek_packet_flags`. -/
def peekPacketFlags (bytes : Bytes) (maxDatagramSize : Nat) : Except ProtocolError PacketFlags :=
  return (← decodeHeaderAndLengths bytes maxDatagramSize).flags

end DartUdp.Udp
