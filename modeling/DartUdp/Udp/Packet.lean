import Mathlib.Data.List.Sort
import DartUdp.Lib.Bytes
import DartUdp.Lib.Machine

/-!
# Packets and frames

The data the two ends of a connection exchange. Connection ids, packet numbers
and stream ids wrap a `u64`; they are naturals here, and the fixed-size byte
arrays of the handshake are byte strings. A `Duration` is a number of
nanoseconds.
-/

namespace DartUdp.Udp

open DartUdp.Lib

inductive ReplayError where
  | duplicate
  | tooOld
deriving DecidableEq, Repr

inductive CryptoError where
  | randomnessUnavailable
  | invalidPeerPublicKey
  | invalidSharedSecret
  | keyDerivationFailed
  | authenticationFailed
  | replay (error : ReplayError)
  | encryptedPayloadTooShort
deriving DecidableEq, Repr

inductive ProtocolError where
  | datagramTooShort (minimum actual : Nat)
  | datagramTooLarge (maximum actual : Nat)
  | invalidMagic (expected actual : Nat)
  | unsupportedVersion (version : Nat)
  | invalidPacketType (value : Nat)
  | invalidFlags (value : Nat)
  | invalidHeaderLength (expected actual : Nat)
  | payloadLengthMismatch (declared actual : Nat)
  | checksumMismatch (expected actual : Nat)
  | emptyPacket
  | tooManyFrames (maximum : Nat)
  | unknownFrameType (value : Nat)
  | frameTooLarge (maximum actual : Nat)
  | truncated (context : String)
  | varIntOverflow
  | invalidVarIntLength (length : Nat)
  | invalidValue (field : String)
  | invalidAckRanges
  | ackRangeCountExceeded (maximum : Nat)
  | invalidUtf8 (field : String)
  | encryptedPacketRequiresKeys
  | encryptionNotAllowed
  | crypto (error : CryptoError)
deriving DecidableEq, Repr

def magic : Nat := 0xd7f1

def version : Nat := 2

def fixedHeaderLen : Nat := 30

inductive PacketType where
  | initial
  | handshake
  | data
  | close
  | retry
deriving DecidableEq, Repr

/-- `packet_type as u8`. -/
def PacketType.code : PacketType → Nat
  | .initial => 0
  | .handshake => 1
  | .data => 2
  | .close => 3
  | .retry => 4

/-- `PacketType::try_from`. -/
def PacketType.tryFrom (value : Nat) : Except ProtocolError PacketType :=
  match value with
  | 0 => .ok .initial
  | 1 => .ok .handshake
  | 2 => .ok .data
  | 3 => .ok .close
  | 4 => .ok .retry
  | value => .error (.invalidPacketType value)

/-! ## Header flags -/

def ackElicitingFlag : Nat := 0x0001

def encryptedFlag : Nat := 0x0002

def probeFlag : Nat := 0x0004

def hasPaddingFlag : Nat := 0x0008

def knownBits : Nat := ackElicitingFlag ||| encryptedFlag ||| probeFlag ||| hasPaddingFlag

/-- `PacketFlags`: the 16 bits of the header field. -/
structure PacketFlags where
  bits : Nat
deriving DecidableEq, Repr

namespace PacketFlags

/-- `PacketFlags::empty`. -/
def empty : PacketFlags := ⟨0⟩

/-- `PacketFlags::contains`. -/
def contains (flags : PacketFlags) (flag : Nat) : Bool := flags.bits &&& flag == flag

/-- `PacketFlags::from_bits`: a bit above the known ones is refused. -/
def fromBits (bits : Nat) : Except ProtocolError PacketFlags :=
  if bits &&& (0xffff ^^^ knownBits) != 0 then .error (.invalidFlags bits) else .ok ⟨bits⟩

/-- `PacketFlags::bitor`. -/
def bitor (flags : PacketFlags) (flag : Nat) : PacketFlags := ⟨flags.bits ||| flag⟩

end PacketFlags

/-! ## Acknowledgements -/

def maxAckRanges : Nat := 32

/-- The packet numbers from `start` to `stop`, both included: the source's
`start` and `end`. -/
structure AckRange where
  start : Nat
  stop : Nat
deriving DecidableEq, Repr

/-- `AckRange::contains`. -/
def AckRange.contains (range : AckRange) (packetNumber : Nat) : Bool :=
  range.start ≤ packetNumber && packetNumber ≤ range.stop

/-- The order of `AckRanges::new` and `ReceivedPackets::record`: by end, then
by start, the larger first. -/
def AckRange.before (left right : AckRange) : Bool :=
  right.stop < left.stop || (right.stop == left.stop && right.start ≤ left.start)

/-- The loop of `AckRanges::from_descending`; `previous` is the range before. -/
def descends (previous : Option AckRange) : List AckRange → Bool
  | [] => true
  | range :: rest =>
      if range.start > range.stop then false
      else
        match previous with
        | some previous =>
            if range.stop ≥ previous.start ||
                (previous.start != 0 && saturatingAdd range.stop 1 ≥ previous.start) then false
            else descends (some range) rest
        | none => descends (some range) rest

/-- `AckRanges::from_descending`. -/
def fromDescending (ranges : List AckRange) : Except ProtocolError (List AckRange) :=
  if ranges.isEmpty then .error .invalidAckRanges
  else if ranges.length > maxAckRanges then .error (.ackRangeCountExceeded maxAckRanges)
  else if descends none ranges then .ok ranges
  else .error .invalidAckRanges

/-- `AckRanges::new`. -/
def ackRanges (ranges : List AckRange) : Except ProtocolError (List AckRange) :=
  if ranges.isEmpty then .error .invalidAckRanges
  else fromDescending (ranges.insertionSort fun left right => left.before right)

structure AckFrame where
  largest : Nat
  ackDelay : Nat
  ranges : List AckRange
deriving DecidableEq, Repr

/-- `Duration::as_micros`. -/
def asMicros (duration : Nat) : Nat := duration / 1000

namespace AckFrame

/-- `AckRanges::contains` on the frame's ranges. -/
def covers (ack : AckFrame) (packetNumber : Nat) : Bool :=
  ack.ranges.any (·.contains packetNumber)

/-- `AckFrame::validate`. -/
def validate (ack : AckFrame) : Except ProtocolError Unit :=
  match ack.ranges with
  | [] => .error .invalidAckRanges
  | range :: _ =>
      if range.stop ≠ ack.largest then .error .invalidAckRanges
      else if asMicros ack.ackDelay > u64Max then .error (.invalidValue "ack_delay")
      else .ok ()

/-- `AckFrame::new`; an `AckRanges` is never empty. -/
def new (ackDelay : Nat) (ranges : List AckRange) : Except ProtocolError AckFrame :=
  match ranges with
  | [] => .error .invalidAckRanges
  | range :: _ => do
      let ack : AckFrame := ⟨range.stop, ackDelay, ranges⟩
      ack.validate
      return ack

end AckFrame

/-! ## Frames -/

structure ClientHello where
  clientNonce : Bytes
  clientPublicKey : Bytes
  maxDatagramSize : Nat
  maxStreams : Nat
  initialConnectionWindow : Nat
  initialStreamWindow : Nat
  cookie : Bytes
deriving DecidableEq, Repr

structure ServerHello where
  serverNonce : Bytes
  serverPublicKey : Bytes
  serverFinished : Bytes
  maxDatagramSize : Nat
  maxStreams : Nat
  initialConnectionWindow : Nat
  initialStreamWindow : Nat
  cookie : Bytes
deriving DecidableEq, Repr

structure HandshakeAck where
  cookie : Bytes
  clientFinished : Bytes
deriving DecidableEq, Repr

structure StreamOpen where
  streamId : Nat
  initialReceiveWindow : Nat
  bidirectional : Bool
deriving DecidableEq, Repr

structure StreamData where
  streamId : Nat
  offset : Nat
  fin : Bool
  data : Bytes
deriving DecidableEq, Repr

structure ResetStream where
  streamId : Nat
  errorCode : Nat
  finalOffset : Nat
deriving DecidableEq, Repr

structure MaxStreamData where
  streamId : Nat
  maxOffset : Nat
deriving DecidableEq, Repr

/-- The reason is kept as its UTF-8 bytes. -/
structure ConnectionClose where
  errorCode : Nat
  frameType : Nat
  reason : Bytes
deriving DecidableEq, Repr

inductive Frame where
  | clientHello (hello : ClientHello)
  | serverHello (hello : ServerHello)
  | handshakeAck (ack : HandshakeAck)
  | retry (cookie : Bytes)
  | ack (ack : AckFrame)
  | streamOpen (frame : StreamOpen)
  | streamData (data : StreamData)
  | resetStream (reset : ResetStream)
  | maxStreamData (update : MaxStreamData)
  | maxData (maxOffset : Nat)
  | ping (nonce : Nat)
  | pong (nonce : Nat)
  | connectionClose (frame : ConnectionClose)
deriving DecidableEq, Repr

namespace Frame

/-- `Frame::is_ack_eliciting`. -/
def isAckEliciting : Frame → Bool
  | .ack _ => false
  | .retry _ => false
  | _ => true

/-- The source's `matches!(frame, Frame::Ack(_))`. -/
def isAck : Frame → Bool
  | .ack _ => true
  | _ => false

/-- The frame is a `StreamData`. -/
def isStreamData : Frame → Bool
  | .streamData _ => true
  | _ => false

/-- `Frame::type_code`. -/
def typeCode : Frame → Nat
  | .clientHello _ => 1
  | .serverHello _ => 2
  | .handshakeAck _ => 3
  | .retry _ => 13
  | .ack _ => 4
  | .streamOpen _ => 5
  | .streamData _ => 6
  | .resetStream _ => 7
  | .maxStreamData _ => 8
  | .maxData _ => 9
  | .ping _ => 10
  | .pong _ => 11
  | .connectionClose _ => 12

end Frame

structure PacketHeader where
  version : Nat
  packetType : PacketType
  flags : PacketFlags
  headerLen : Nat
  connectionId : Nat
  packetNumber : Nat
  payloadLen : Nat
  checksum : Nat
deriving DecidableEq, Repr

structure Packet where
  packetType : PacketType
  flags : PacketFlags
  connectionId : Nat
  packetNumber : Nat
  frames : List Frame
deriving DecidableEq, Repr

end DartUdp.Udp
