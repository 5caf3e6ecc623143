import DartUdp.TimeWheel.Wheel
import DartUdp.Udp.Codec

/-!
# Configuration, errors and outputs of a connection

Durations are in nanoseconds.
-/

namespace DartUdp.Core

open DartUdp.Lib DartUdp.Udp

inductive ConnectionRole where
  | client
  | server
deriving DecidableEq, Repr

/-- `ConnectionRole::local_stream_parity`. -/
def ConnectionRole.localStreamParity : ConnectionRole → Nat
  | .client => 0
  | .server => 1

/-- `ConnectionRole::peer_stream_parity`. -/
def ConnectionRole.peerStreamParity (role : ConnectionRole) : Nat := 1 - role.localStreamParity

/-- The role of the other end. -/
def ConnectionRole.peer : ConnectionRole → ConnectionRole
  | .client => .server
  | .server => .client

structure ConnectionConfig where
  maxDatagramSize : Nat := defaultMaxDatagramSize
  maxStreams : Nat := 64
  initialConnectionWindow : Nat := 4 * 1024 * 1024
  initialStreamWindow : Nat := 1024 * 1024
  maxSendBuffer : Nat := 4 * 1024 * 1024
  maxReceiveBuffer : Nat := 4 * 1024 * 1024
  initialCongestionWindow : Nat := 10 * 1200
  minCongestionWindow : Nat := 1200
  maxCongestionWindow : Nat := 16 * 1024 * 1024
  initialRto : Nat := 1000000000
  minRto : Nat := 200000000
  maxRto : Nat := 60000000000
  clockGranularity : Nat := 10000000
  ackDelay : Nat := 25000000
  idleTimeout : Nat := 30000000000
  keepaliveInterval : Option Nat := some 10000000000
  handshakeTimeout : Nat := 5000000000
  closeTimeout : Nat := 1000000000
  maxRetransmissions : Nat := 8
  fastLossThreshold : Nat := 3
  handshakeCookie : Bytes := []
deriving DecidableEq, Repr

inductive ConnectionConfigError where
  | datagramSizeTooSmall
  | datagramSizeTooLarge
  | zeroMaxStreams
  | zeroWindow
  | zeroBuffer
  | invalidCongestionWindow
  | invalidTimeout
  | invalidKeepalive
  | wheel (error : TimeWheel.ConfigError)
deriving DecidableEq, Repr

namespace ConnectionConfig

/-- `ConnectionConfig::validate`. -/
def validate (config : ConnectionConfig) : Except ConnectionConfigError Unit :=
  if config.maxDatagramSize < fixedHeaderLen then .error .datagramSizeTooSmall
  else if config.maxDatagramSize > 0xffff then .error .datagramSizeTooLarge
  else if config.maxStreams = 0 then .error .zeroMaxStreams
  else if config.initialConnectionWindow = 0 || config.initialStreamWindow = 0 then
    .error .zeroWindow
  else if config.maxSendBuffer = 0 || config.maxReceiveBuffer = 0 then .error .zeroBuffer
  else if config.minCongestionWindow = 0
      || config.initialCongestionWindow < config.minCongestionWindow
      || config.maxCongestionWindow < config.initialCongestionWindow then
    .error .invalidCongestionWindow
  else if config.initialRto = 0 || config.minRto = 0 || config.maxRto < config.minRto
      || config.initialRto < config.minRto || config.initialRto > config.maxRto
      || config.clockGranularity = 0 then
    .error .invalidTimeout
  else if config.ackDelay > config.maxRto || config.idleTimeout = 0
      || config.handshakeTimeout = 0 || config.closeTimeout = 0
      || config.fastLossThreshold = 0 || config.handshakeCookie.length > maxCookieLen then
    .error .invalidTimeout
  else
    match config.keepaliveInterval with
    | some interval =>
        if interval = 0 || interval ≥ config.idleTimeout then .error .invalidKeepalive else .ok ()
    | none => .ok ()

/-- `ConnectionConfig::wheel_config`. -/
def wheelConfig (config : ConnectionConfig) :
    Except ConnectionConfigError TimeWheel.WheelConfig :=
  let builder : TimeWheel.WheelConfigBuilder := { baseTick := config.clockGranularity }
  match (((builder.levelSlots 512).levelSlots 64).levelSlots 64).build with
  | .ok built => .ok built
  | .error error => .error (.wheel error)

end ConnectionConfig

inductive ConnectionState where
  | idle
  | handshaking
  | established
  | closing
  | closed
deriving DecidableEq, Repr

inductive CoreError where
  | invalidConfig (error : ConnectionConfigError)
  | protocol (error : ProtocolError)
  | timer (error : TimeWheel.TimerError)
  | connectionIdMismatch
  | invalidState (operation : String)
  | invalidPacketType
  | invalidStreamId (streamId : Nat)
  | streamLimit
  | unknownStream (streamId : Nat)
  | streamReset (streamId errorCode : Nat)
  | flowControlViolation (streamId : Option Nat)
  | receiveBufferFull
  | sendBufferFull
  | invalidOffset
  | ackForUnsentPacket
  | retransmissionLimit
  | randomnessUnavailable
  | crypto (error : CryptoError)
deriving DecidableEq, Repr

inductive CoreOutput where
  | send (packet : Packet)
  | streamOpened (streamId : Nat)
  | streamReadable (streamId : Nat)
  | streamFinished (streamId : Nat)
  | streamReset (streamId errorCode : Nat)
  | connectionStateChanged (state : ConnectionState)
  | connectionClosed (errorCode : Nat)
deriving DecidableEq, Repr

inductive TimerEvent where
  | handshakeTimeout
  | retransmit (packetNumber generation : Nat)
  | ackDelay
  | keepalive
  | idleTimeout
  | closeTimeout
deriving DecidableEq, Repr

end DartUdp.Core
