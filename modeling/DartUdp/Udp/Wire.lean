import DartUdp.Udp.Packet

/-!
# Frames on the wire

A frame is its type code, the length of its body as a variable-length integer,
and the body. The writers append to an output that they answer; a reader takes
what it reads off the front of the bytes that are left, which is the source's
slice from its offset on.
-/

namespace DartUdp.Udp

open DartUdp.Lib

def maxFrameBodyLen : Nat := 0xffff

def maxCookieLen : Nat := 128

def maxCloseReasonLen : Nat := 1024

def maxRetryCookieLen : Nat := 64

def nonceLen : Nat := 16

def x25519PublicKeyLen : Nat := 32

def finishedTagLen : Nat := 16

/-! ## Variable-length integers -/

/-- `varint::MAX_VALUE`. -/
def varintMax : Nat := 2 ^ 62 - 1

/-- `varint::encoded_len`. -/
def varintLen (value : Nat) : Except ProtocolError Nat :=
  if value ≤ 0x3f then .ok 1
  else if value ≤ 0x3fff then .ok 2
  else if value ≤ 0x3fffffff then .ok 4
  else if value ≤ varintMax then .ok 8
  else .error .varIntOverflow

/-- `varint::encode`: the two highest bits of the first byte tell the length. -/
def varint (value : Nat) : Except ProtocolError Bytes := do
  match ← varintLen value with
  | 1 => return beBytes 1 value
  | 2 => return beBytes 2 (value ||| 0x4000)
  | 4 => return beBytes 4 (value ||| 0x80000000)
  | 8 => return beBytes 8 (value ||| 0xc000000000000000)
  | length => throw (.invalidVarIntLength length)

/-- What reads from the front of the bytes that are left. -/
abbrev Reader := StateT Bytes (Except ProtocolError)

/-- `Reader::read_exact`. -/
def readExact (length : Nat) (context : String) : Reader Bytes := fun input =>
  if length ≤ input.length then .ok (input.take length, input.drop length)
  else .error (.truncated context)

/-- `varint::decode`. -/
def readVarint : Reader Nat := fun input =>
  match input with
  | [] => .error (.truncated "varint")
  | first :: _ => do
      let length := 1 <<< (first.toNat >>> 6)
      let (bytes, rest) ← readExact length "varint" input
      return (ofBe bytes &&& (2 ^ (8 * length - 2) - 1), rest)

/-- `Reader::read_u8`. -/
def readU8 : Reader Nat := fun input =>
  match input with
  | [] => .error (.truncated "frame")
  | byte :: rest => .ok (byte.toNat, rest)

/-- `Reader::read_u16`. -/
def readU16 : Reader Nat := ofBe <$> readExact 2 "u16"

/-- `Reader::read_u32`. -/
def readU32 : Reader Nat := ofBe <$> readExact 4 "u32"

/-- `Reader::read_u64`. -/
def readU64 : Reader Nat := ofBe <$> readExact 8 "u64"

/-- `Reader::read_array`. -/
def readArray (length : Nat) : Reader Bytes := readExact length "fixed-size field"

/-- `Reader::read_blob`. -/
def readBlob (maximum : Nat) (context : String) : Reader Bytes := do
  let length ← readVarint
  if length > maximum then throw (.frameTooLarge maximum length)
  readExact length context

/-- `Reader::finish`. -/
def finish : Reader Unit := do
  if (← get) ≠ [] then throw (.invalidValue "trailing frame bytes")

/-- `write_blob`. -/
def writeBlob (bytes : Bytes) (maximum : Nat) : Except ProtocolError Bytes := do
  if bytes.length > maximum then throw (.frameTooLarge maximum bytes.length)
  return (← varint bytes.length) ++ bytes

/-! ## The bodies of the frames -/

/-- `validate_hello`. -/
def validateHello (maxDatagramSize maxStreams initialConnectionWindow initialStreamWindow : Nat) :
    Except ProtocolError Unit :=
  if maxDatagramSize < fixedHeaderLen then .error (.invalidValue "max_datagram_size")
  else if maxStreams = 0 then .error (.invalidValue "max_streams")
  else if initialConnectionWindow = 0 then .error (.invalidValue "initial_connection_window")
  else if initialStreamWindow = 0 then .error (.invalidValue "initial_stream_window")
  else .ok ()

/-- The negotiated numbers and the cookie, which end both hellos. -/
def writeOffer (maxDatagramSize maxStreams initialConnectionWindow initialStreamWindow : Nat)
    (cookie : Bytes) : Except ProtocolError Bytes :=
  return beBytes 2 maxDatagramSize ++ beBytes 4 maxStreams ++ beBytes 8 initialConnectionWindow ++
    beBytes 8 initialStreamWindow ++ (← writeBlob cookie maxCookieLen)

/-- `ClientHello::encode`. -/
def ClientHello.encode (h : ClientHello) : Except ProtocolError Bytes := do
  validateHello h.maxDatagramSize h.maxStreams h.initialConnectionWindow h.initialStreamWindow
  return h.clientNonce ++ h.clientPublicKey ++ (← writeOffer h.maxDatagramSize h.maxStreams
    h.initialConnectionWindow h.initialStreamWindow h.cookie)

/-- `ClientHello::decode`. -/
def ClientHello.decode : Reader ClientHello := do
  let h : ClientHello := ⟨← readArray nonceLen, ← readArray x25519PublicKeyLen, ← readU16,
    ← readU32, ← readU64, ← readU64, ← readBlob maxCookieLen "client cookie"⟩
  validateHello h.maxDatagramSize h.maxStreams h.initialConnectionWindow h.initialStreamWindow
  return h

/-- `ServerHello::encode`. -/
def ServerHello.encode (h : ServerHello) : Except ProtocolError Bytes := do
  validateHello h.maxDatagramSize h.maxStreams h.initialConnectionWindow h.initialStreamWindow
  return h.serverNonce ++ h.serverPublicKey ++ h.serverFinished ++
    (← writeOffer h.maxDatagramSize h.maxStreams h.initialConnectionWindow h.initialStreamWindow
      h.cookie)

/-- `ServerHello::decode`. -/
def ServerHello.decode : Reader ServerHello := do
  let h : ServerHello := ⟨← readArray nonceLen, ← readArray x25519PublicKeyLen,
    ← readArray finishedTagLen, ← readU16, ← readU32, ← readU64, ← readU64,
    ← readBlob maxCookieLen "server cookie"⟩
  validateHello h.maxDatagramSize h.maxStreams h.initialConnectionWindow h.initialStreamWindow
  return h

/-- `HandshakeAck::encode`. -/
def HandshakeAck.encode (a : HandshakeAck) : Except ProtocolError Bytes :=
  return (← writeBlob a.cookie maxCookieLen) ++ a.clientFinished

/-- `HandshakeAck::decode`. -/
def HandshakeAck.decode : Reader HandshakeAck :=
  return ⟨← readBlob maxCookieLen "handshake cookie", ← readArray finishedTagLen⟩

/-- The ranges of `AckRanges::encode_into`, after their count. -/
def writeRanges : List AckRange → Except ProtocolError Bytes
  | [] => return []
  | range :: rest =>
      return (← varint range.start) ++ (← varint range.stop) ++ (← writeRanges rest)

/-- `AckRanges::encode_into`. -/
def encodeRanges (ranges : List AckRange) : Except ProtocolError Bytes := do
  if ranges.length > maxAckRanges then throw (.ackRangeCountExceeded maxAckRanges)
  return (← varint ranges.length) ++ (← writeRanges ranges)

/-- The loop of `AckRanges::decode_from`. -/
def readRanges : Nat → Reader (List AckRange)
  | 0 => return []
  | count + 1 => do
      let start ← readVarint
      let stop ← readVarint
      return ⟨start, stop⟩ :: (← readRanges count)

/-- `AckRanges::decode_from`. -/
def decodeRanges : Reader (List AckRange) := do
  let count ← readVarint
  if count = 0 then throw .invalidAckRanges
  if count > maxAckRanges then throw (.ackRangeCountExceeded maxAckRanges)
  fromDescending (← readRanges count)

/-- `AckFrame::encode_into`. -/
def AckFrame.encode (a : AckFrame) : Except ProtocolError Bytes := do
  a.validate
  return (← varint a.largest) ++ (← varint (asMicros a.ackDelay)) ++ (← encodeRanges a.ranges)

/-- `AckFrame::decode_from`. -/
def AckFrame.decode : Reader AckFrame := do
  let largest ← readVarint
  let delayMicros ← readVarint
  let a : AckFrame := ⟨largest, delayMicros * 1000, ← decodeRanges⟩
  a.validate
  return a

/-- `u8::from` of a flag. -/
def flagByte (flag : Bool) : UInt8 := if flag then 1 else 0

/-- A flag byte: anything but 0 and 1 is refused. -/
def readFlag (field : String) : Reader Bool := do
  match ← readU8 with
  | 0 => return false
  | 1 => return true
  | _ => throw (.invalidValue field)

/-- `StreamOpen::encode`. -/
def StreamOpen.encode (o : StreamOpen) : Except ProtocolError Bytes := do
  if o.initialReceiveWindow = 0 then throw (.invalidValue "initial_receive_window")
  return (← varint o.streamId) ++ (← varint o.initialReceiveWindow) ++ [flagByte o.bidirectional]

/-- `StreamOpen::decode`. -/
def StreamOpen.decode : Reader StreamOpen := do
  let o : StreamOpen := ⟨← readVarint, ← readVarint, ← readFlag "stream direction"⟩
  if o.initialReceiveWindow = 0 then throw (.invalidValue "initial_receive_window")
  return o

/-- `StreamData::encode`. -/
def StreamData.encode (d : StreamData) : Except ProtocolError Bytes :=
  return (← varint d.streamId) ++ (← varint d.offset) ++ [flagByte d.fin] ++
    (← writeBlob d.data maxFrameBodyLen)

/-- `StreamData::decode`. -/
def StreamData.decode : Reader StreamData := do
  let d : StreamData := ⟨← readVarint, ← readVarint, ← readFlag "stream FIN flag",
    ← readBlob maxFrameBodyLen "stream data"⟩
  if (checkedAdd d.offset d.data.length).isNone then throw (.invalidValue "stream offset")
  return d

/-- `ResetStream::encode`. -/
def ResetStream.encode (r : ResetStream) : Except ProtocolError Bytes :=
  return (← varint r.streamId) ++ beBytes 4 r.errorCode ++ (← varint r.finalOffset)

/-- `ResetStream::decode`. -/
def ResetStream.decode : Reader ResetStream :=
  return ⟨← readVarint, ← readU32, ← readVarint⟩

/-- `MaxStreamData::encode`. -/
def MaxStreamData.encode (m : MaxStreamData) : Except ProtocolError Bytes :=
  return (← varint m.streamId) ++ (← varint m.maxOffset)

/-- `MaxStreamData::decode`. -/
def MaxStreamData.decode : Reader MaxStreamData :=
  return ⟨← readVarint, ← readVarint⟩

/-- `ConnectionClose::encode`. -/
def ConnectionClose.encode (c : ConnectionClose) : Except ProtocolError Bytes := do
  if c.reason.length > maxCloseReasonLen then
    throw (.frameTooLarge maxCloseReasonLen c.reason.length)
  return beBytes 4 c.errorCode ++ beBytes 1 c.frameType ++
    (← writeBlob c.reason maxCloseReasonLen)

/-- `ConnectionClose::decode`. -/
def ConnectionClose.decode : Reader ConnectionClose := do
  let errorCode ← readU32
  let frameType ← readU8
  let reason ← readBlob maxCloseReasonLen "close reason"
  if !utf8Valid reason then throw (.invalidUtf8 "close reason")
  return ⟨errorCode, frameType, reason⟩

/-! ## Frames -/

/-- `Frame::encode_body`. -/
def Frame.encodeBody : Frame → Except ProtocolError Bytes
  | .clientHello h => h.encode
  | .serverHello h => h.encode
  | .handshakeAck a => a.encode
  | .retry cookie => writeBlob cookie maxRetryCookieLen
  | .ack a => a.encode
  | .streamOpen o => o.encode
  | .streamData d => d.encode
  | .resetStream r => r.encode
  | .maxStreamData m => m.encode
  | .maxData maxOffset => varint maxOffset
  | .ping nonce => return beBytes 8 nonce
  | .pong nonce => return beBytes 8 nonce
  | .connectionClose c => c.encode

/-- `Frame::encode`. -/
def Frame.encode (frame : Frame) : Except ProtocolError Bytes := do
  let body ← frame.encodeBody
  if body.length > maxFrameBodyLen then throw (.frameTooLarge maxFrameBodyLen body.length)
  return frame.typeCode.toUInt8 :: (← varint body.length) ++ body

/-- The body of a frame of the given type, up to `Reader::finish`. -/
def readBody (frameType : Nat) : Reader Frame :=
  match frameType with
  | 1 => .clientHello <$> ClientHello.decode
  | 2 => .serverHello <$> ServerHello.decode
  | 3 => .handshakeAck <$> HandshakeAck.decode
  | 13 => .retry <$> readBlob maxRetryCookieLen "retry cookie"
  | 4 => .ack <$> AckFrame.decode
  | 5 => .streamOpen <$> StreamOpen.decode
  | 6 => .streamData <$> StreamData.decode
  | 7 => .resetStream <$> ResetStream.decode
  | 8 => .maxStreamData <$> MaxStreamData.decode
  | 9 => .maxData <$> readVarint
  | 10 => .ping <$> readU64
  | 11 => .pong <$> readU64
  | 12 => .connectionClose <$> ConnectionClose.decode
  | value => throw (.unknownFrameType value)

/-- `Frame::decode`. -/
def Frame.decode (frameType : Nat) (body : Bytes) : Except ProtocolError Frame := do
  let read : Reader Frame := do
    let frame ← readBody frameType
    finish
    return frame
  return (← read body).1

end DartUdp.Udp
