import DartUdp.Core.Recovery
import DartUdp.Core.Timers

/-!
# The connection

One end of a connection. The helpers of the source borrow parts of it and are
programs on the whole of it here; a call that fails keeps what it wrote before
it failed. The cryptographic primitives are a parameter, and what the system's
random source answered comes in as an argument.
-/

namespace DartUdp.Core

open DartUdp.Lib DartUdp.Udp

structure HandshakeState where
  connectionId : Nat
  keyPair : EphemeralKeyPair
  localNonce : Bytes
  clientNonce : Option Bytes := none
  peerClientNonce : Option Bytes := none
  peerCookie : Bytes := []
  frame : Option Frame := none
  transcriptHash : Option Bytes := none
  sessionKeys : Option SessionKeys := none
  retries : Nat := 0
  peerMaxStreams : Nat
  peerInitialStreamWindow : Nat

/-- What a connection is built with that it does not choose: what `getrandom` fills
the nonce and the secret with, `none` where it fails, and the order its timers are
gone through in, which is up to the slot map. -/
structure Entropy where
  localNonce : Option Bytes
  secret : Option Bytes
  order : KeyOrder := .byAge

/-- `HandshakeState::new`. -/
def HandshakeState.new (connectionId : Nat) (config : ConnectionConfig) (entropy : Entropy) :
    Except CoreError HandshakeState :=
  match entropy.localNonce with
  | none => .error .randomnessUnavailable
  | some localNonce =>
      match entropy.secret with
      | none => .error (.crypto .randomnessUnavailable)
      | some secret =>
          .ok {
            connectionId := connectionId
            keyPair := ⟨secret⟩
            localNonce := localNonce
            peerMaxStreams := config.maxStreams
            peerInitialStreamWindow := config.initialStreamWindow }

/-- `HandshakeState::effective_max_streams`. -/
def HandshakeState.effectiveMaxStreams (h : HandshakeState) (config : ConnectionConfig) : Nat :=
  min config.maxStreams h.peerMaxStreams

structure ReadResult where
  data : Bytes
  eof : Bool
deriving DecidableEq, Repr

structure Connection where
  role : ConnectionRole
  id : Nat
  config : ConnectionConfig
  state : ConnectionState
  now : Nat
  streams : StreamManager
  transport : TransportState
  handshake : HandshakeState
  packetCrypto : Option PacketCrypto
  timers : TimerState
  output : List CoreOutput
  connectionSend : SendFlowControl
  connectionReceive : ReceiveFlowControl
  closeError : Option Nat

/-- A method on `&mut Connection` that can fail. -/
abbrev ConnM := EStateM CoreError Connection

namespace Connection

/-- `Connection::is_reliably_flushed`. -/
def isReliablyFlushed (c : Connection) : Bool := c.transport.isReliablyFlushed c.streams

/-- `Connection::stream_info`. -/
def streamInfo (c : Connection) (streamId : Nat) : Except CoreError StreamInfo :=
  c.streams.info streamId

/-- `Connection::next_deadline`. -/
def nextDeadline (c : Connection) : Except CoreError (Option Nat) := c.timers.nextDeadline

/-- `Connection::effective_max_streams`. -/
def effectiveMaxStreams (c : Connection) : Nat := c.handshake.effectiveMaxStreams c.config

/-- `Connection::max_stream_data_chunk`. -/
def maxStreamDataChunk (c : Connection) : Nat := max (c.config.maxDatagramSize - 100) 1

/-- A packet of the type is encrypted: it is of type Data or Close, and the
connection has keys and is Established or Closing. -/
def encrypts (c : Connection) (packetType : PacketType) : Bool :=
  c.packetCrypto.isSome && (c.state == .established || c.state == .closing) &&
    (packetType == .data || packetType == .close)

/-- `self.output.push_back`. -/
def emit (c : Connection) (out : CoreOutput) : Connection := { c with output := c.output ++ [out] }

/-- `Connection::set_state`. -/
def setState (c : Connection) (state : ConnectionState) : Connection :=
  if c.state ≠ state then { c with state := state }.emit (.connectionStateChanged state) else c

/-- `self.transport.queue`. -/
def queue (c : Connection) (frame : Frame) : Connection :=
  { c with transport := c.transport.queue frame }

/-- `self.transport.queue_front`. -/
def queueFront (c : Connection) (frame : Frame) : Connection :=
  { c with transport := c.transport.queueFront frame }

end Connection

variable {α : Type}

/-- A call on the timers. -/
def onTimers (m : TimerM α) : ConnM α := zoom (·.timers) (fun t c => { c with timers := t }) m

/-- A call on the streams. -/
def onStreams (m : StreamsM α) : ConnM α := zoom (·.streams) (fun m c => { c with streams := m }) m

def modifyTransport (f : TransportState → TransportState) : ConnM Unit :=
  modify fun c => { c with transport := f c.transport }

def modifyHandshake (f : HandshakeState → HandshakeState) : ConnM Unit :=
  modify fun c => { c with handshake := f c.handshake }

/-- `Connection::ensure_established`. -/
def ensureEstablished (operation : String) : ConnM Unit := do
  if (← get).state ≠ .established then throw (.invalidState operation)

/-! ## Acknowledgements and loss -/

/-- `TransportState::schedule_ack`. -/
def scheduleAck : ConnM Unit := do
  modifyTransport fun t => { t with ackPending := true }
  let c ← get
  if c.config.ackDelay = 0 then
    modifyTransport fun t => { t with ackReady := true }
  else if !c.transport.ackReady then
    onTimers (scheduleAckTimer c.config.ackDelay)

/-- A frame back to where it came from: stream data to its stream, anything
else to the front of the queue. -/
def putBack (frame : Frame) (retransmitCount : Nat) : ConnM Unit :=
  match frame with
  | .streamData data => onStreams (requeueData data retransmitCount)
  | frame => modifyTransport fun t =>
      { t with pendingFrames := ⟨frame, retransmitCount⟩ :: t.pendingFrames }

/-- The loop of `TransportState::requeue_lost`. -/
def putBackAll (retransmitCount : Nat) : List QueuedFrame → ConnM Unit
  | [] => return
  | queued :: rest => do
      putBack queued.frame retransmitCount
      putBackAll retransmitCount rest

/-- `TransportState::requeue_lost`. -/
def requeueLost (frames : List QueuedFrame) (retransmitCount : Nat) : ConnM Unit := do
  let nextCount := min (retransmitCount + 1) u32Max
  if nextCount > (← get).config.maxRetransmissions then throw .retransmissionLimit
  putBackAll nextCount frames.reverse

/-- The first loop of `TransportState::apply_ack`, over the acknowledged packets:
the first round-trip sample, if any. -/
def removeAcked : List Nat → Option Nat → ConnM (Option Nat)
  | [], rttSample => return rttSample
  | packetNumber :: rest, rttSample => do
      let c ← get
      match c.transport.sent[packetNumber]? with
      | none => removeAcked rest rttSample
      | some packet => do
          modify fun c =>
            { c with
              transport :=
                { c.transport with
                  sent := c.transport.sent.erase packetNumber
                  congestion := c.transport.congestion.onAcked packet.encodedLen
                  acked := c.transport.acked ++ [packet] }
              timers := c.timers.cancel packet.timerId }
          let sample := if packet.retransmitCount = 0 && rttSample.isNone then
            some (c.now - packet.sentAt) else rttSample
          removeAcked rest sample

/-- The second loop of `TransportState::apply_ack`, over the packets taken for
lost. -/
def removeLost : List Nat → ConnM Unit
  | [] => return
  | packetNumber :: rest => do
      match (← get).transport.sent[packetNumber]? with
      | none => removeLost rest
      | some packet => do
          modify fun c =>
            { c with
              transport :=
                { c.transport with
                  sent := c.transport.sent.erase packetNumber
                  congestion := c.transport.congestion.onLoss packet.encodedLen }
              timers := c.timers.cancel packet.timerId }
          requeueLost packet.frames packet.retransmitCount
          removeLost rest

/-- `TransportState::apply_ack`. -/
def applyAck (ack : AckFrame) : ConnM Unit := do
  ofExcept .protocol ack.validate
  let c ← get
  if ack.largest ≥ c.transport.nextPacketNumber then throw .ackForUnsentPacket
  let acknowledged := c.transport.sent.keys.filter ack.covers
  match ← removeAcked acknowledged none with
  | some sample =>
      modifyTransport fun t => { t with rtt := (t.rtt.onAck sample ack.ackDelay).resetBackoff }
  | none => pure ()
  let c ← get
  removeLost (c.transport.sent.keys.filter fun packetNumber =>
    c.config.fastLossThreshold ≤ (acknowledged.filter (packetNumber < ·)).length)

/-- `TransportState::process_retransmit`. -/
def processRetransmit (packetNumber generation : Nat) : ConnM Unit := do
  match (← get).transport.sent[packetNumber]? with
  | none => return
  | some packet => do
      if packet.generation ≠ generation then return
      modifyTransport fun t =>
        { t with
          sent := t.sent.erase packetNumber
          congestion := t.congestion.onLoss packet.encodedLen
          rtt := t.rtt.onTimeout }
      requeueLost packet.frames packet.retransmitCount

/-- The connection gives up on a packet: the error closes it, then passes on. -/
def closeOnLimit (m : ConnM α) : ConnM α :=
  tryCatch m fun error => do
    if error = .retransmissionLimit then
      modify fun c => { c with closeError := some 3 }.setState .closing
    throw error

/-! ## Flushing -/

inductive Candidate where
  | ack (ack : AckFrame)
  | frame (queued : QueuedFrame)
deriving DecidableEq, Repr

/-- The frame a candidate puts in its packet. -/
def Candidate.outbound : Candidate → Frame
  | .ack a => .ack a
  | .frame queued => queued.frame

/-- The type of a candidate's packet. -/
def Candidate.packetType (state : ConnectionState) : Candidate → PacketType
  | .ack _ => .data
  | .frame queued => Core.packetType queued.frame state

/-- `TransportState::take_data_candidate`. -/
def takeDataCandidate : ConnM (Option QueuedFrame) := do
  let c ← get
  match c.transport.pendingFrames with
  | queued :: rest => do
      modifyTransport fun t => { t with pendingFrames := rest }
      return some queued
  | [] =>
      match c.streams.takeSendable with
      | some (queued, streams) => do
          modify fun c => { c with streams := streams }
          return some queued
      | none => return none

/-- The candidate of one round of the loop of `TransportState::flush`. -/
def takeCandidate : ConnM (Option Candidate) := do
  let c ← get
  if c.transport.ackPending && c.transport.ackReady then
    return (← ofExcept .protocol (c.transport.received.frame c.now c.config.ackDelay)).map .ack
  else
    return (← takeDataCandidate).map .frame

/-- The packet a candidate goes out in. -/
def Connection.packetFor (c : Connection) (candidate : Candidate) : Packet where
  packetType := candidate.packetType c.state
  flags := if candidate.outbound.isAckEliciting then ⟨ackElicitingFlag⟩ else .empty
  connectionId := c.id
  packetNumber := c.transport.nextPacketNumber
  frames := [candidate.outbound]

/-- The length a packet will have on the wire, which must not pass the limit. -/
def Connection.encodedLen (c : Connection) (packet : Packet) : Except CoreError Nat :=
  match encodePacket packet c.config.maxDatagramSize with
  | .error error => .error (.protocol error)
  | .ok bytes =>
      let sealedLen := if c.encrypts packet.packetType then bytes.length + aeadTagLen
        else bytes.length
      if sealedLen > c.config.maxDatagramSize then
        .error (.protocol (.datagramTooLarge c.config.maxDatagramSize sealedLen))
      else .ok sealedLen

/-- `TransportState::requeue_candidate`; an ACK is made anew. -/
def requeueCandidate : Candidate → ConnM Unit
  | .ack _ => return
  | .frame queued => putBack queued.frame queued.retransmitCount

/-- `TransportState::record_sent`. -/
def recordSent (packetNumber encodedLen : Nat) (queued : QueuedFrame) : ConnM Unit := do
  match queued.frame with
  | .clientHello _ => return
  | .serverHello _ => return
  | .handshakeAck _ => return
  | _ => do
      modifyTransport fun t => { t with generation := (t.generation + 1) % 2 ^ 32 }
      let c ← get
      let generation := c.transport.generation
      let timerId ← onTimers (schedule (.retransmit packetNumber generation) c.transport.rtt.rto)
      modifyTransport fun t =>
        { t with
          congestion := t.congestion.onSent encodedLen
          sent := t.sent.insert packetNumber
            ⟨packetNumber, c.now, encodedLen, [queued], queued.retransmitCount, timerId,
              generation⟩ }

/-- Connection flow control on the way out: whether a stream frame has to wait.
One that goes out for the first time is accounted. -/
def flowBlocks (candidate : Candidate) : ConnM Bool := do
  match candidate with
  | .frame ⟨.streamData data, retransmitCount⟩ => do
      if !(← get).connectionSend.canSend data.data.length (retransmitCount != 0) then return true
      if retransmitCount = 0 then
        modify fun c =>
          { c with connectionSend := c.connectionSend.accountNewData data.data.length }
      return false
  | _ => return false

/-- What follows the push of the packet to the output. -/
def settle (packetNumber encodedLen : Nat) : Candidate → ConnM Unit
  | .ack _ =>
      modify fun c =>
        { c with
          transport := { c.transport with ackPending := false, ackReady := false }
          timers := c.timers.cancelAck }
  | .frame queued => do
      if queued.frame.isAckEliciting then
        recordSent packetNumber encodedLen queued
        modifyTransport (·.weigh)

/-- One round of the loop of `TransportState::flush`: whether it goes on. -/
def flushOnce : ConnM Bool := do
  match ← takeCandidate with
  | none => return false
  | some candidate => do
      let c ← get
      let packet := c.packetFor candidate
      let encodedLen ← ofExcept id (c.encodedLen packet)
      if candidate.outbound.isAckEliciting && !c.transport.congestion.canSend encodedLen then
        requeueCandidate candidate
        return false
      match checkedAdd c.transport.nextPacketNumber 1 with
      | none => throw (.invalidState "allocate packet number")
      | some next => do
          modifyTransport fun t => { t with nextPacketNumber := next }
          if ← flowBlocks candidate then
            requeueCandidate candidate
            modifyTransport fun t => { t with nextPacketNumber := t.nextPacketNumber - 1 }
            return false
          modify (·.emit (.send packet))
          settle packet.packetNumber encodedLen candidate
          return true

/-- The loop of `TransportState::flush`. -/
def flushLoop : Nat → ConnM Unit
  | 0 => return
  | fuel + 1 => do
      if ← flushOnce then flushLoop fuel

/-- Every round that goes on takes a frame out of a queue or sends the one ACK
that is due, so this many are enough. -/
def Connection.flushFuel (c : Connection) : Nat :=
  c.transport.pendingFrames.length +
    (c.streams.streams.toList.map (·.2.send.queue.length)).sum + 2

/-- `Connection::flush`. -/
def flush : ConnM Unit := do
  flushLoop (← get).flushFuel

/-! ## The handshake -/

/-- `value as u16`. -/
def asU16 (value : Nat) : Nat := value % 2 ^ 16

section

variable (suite : Suite)

/-- The `ClientHello` of `start_client` and `receive_retry`. -/
def Connection.clientHello (c : Connection) : Frame :=
  .clientHello {
    clientNonce := c.handshake.localNonce
    clientPublicKey := c.handshake.keyPair.publicKey suite
    maxDatagramSize := asU16 c.config.maxDatagramSize
    maxStreams := c.config.maxStreams
    initialConnectionWindow := c.config.initialConnectionWindow
    initialStreamWindow := c.config.initialStreamWindow
    cookie := c.config.handshakeCookie }

/-- `HandshakeState::start_client`. -/
def startClient : ConnM Unit := do
  let c ← get
  let frame := c.clientHello suite
  modifyHandshake fun h => { h with clientNonce := some h.localNonce }
  modify (·.queue frame)
  modifyHandshake fun h => { h with frame := some frame }
  onTimers (scheduleHandshake c.config.handshakeTimeout)

/-- `HandshakeState::receive_client_hello`. -/
def receiveClientHello (packetType : PacketType) (hello : ClientHello) :
    ConnM (Frame × Option ConnectionState × Option Nat) := do
  let c ← get
  if c.role ≠ .server || packetType ≠ .initial then throw .invalidPacketType
  if c.handshake.peerClientNonce.any (· != hello.clientNonce) then
    throw (.invalidState "client nonce changed during handshake")
  modifyHandshake fun h =>
    { h with
      peerClientNonce := some hello.clientNonce
      peerCookie := hello.cookie
      peerMaxStreams := min h.peerMaxStreams hello.maxStreams
      peerInitialStreamWindow := hello.initialStreamWindow }
  if c.state ≠ .established then
    modify fun c =>
      { c with
        config :=
          { c.config with maxDatagramSize := min c.config.maxDatagramSize hello.maxDatagramSize } }
  let connectionMaxOffset := if c.state ≠ .established then
    some hello.initialConnectionWindow else none
  let publicKey := c.handshake.keyPair.publicKey suite
  let transcriptHash := handshakeTranscriptHash suite c.handshake.connectionId hello.clientNonce
    c.handshake.localNonce hello.clientPublicKey publicKey
  let sharedSecret ← ofExcept .crypto (c.handshake.keyPair.agree suite hello.clientPublicKey)
  let sessionKeys ← ofExcept .crypto (deriveSessionKeys suite sharedSecret transcriptHash)
  modifyHandshake fun h =>
    { h with transcriptHash := some transcriptHash, sessionKeys := some sessionKeys }
  let c ← get
  let frame := .serverHello {
    serverNonce := c.handshake.localNonce
    serverPublicKey := publicKey
    serverFinished := sessionKeys.finishedTag suite .server transcriptHash
    maxDatagramSize := asU16 c.config.maxDatagramSize
    maxStreams := c.effectiveMaxStreams
    initialConnectionWindow := c.config.initialConnectionWindow
    initialStreamWindow := c.config.initialStreamWindow
    cookie := hello.cookie }
  return (frame, if c.state = .idle then some .handshaking else none, connectionMaxOffset)

/-- `HandshakeState::receive_server_hello`. -/
def receiveServerHello (packetType : PacketType) (hello : ServerHello) : ConnM (Frame × Nat) := do
  let c ← get
  if c.role ≠ .client || packetType ≠ .handshake || c.state ≠ .handshaking then
    throw .invalidPacketType
  modifyHandshake fun h =>
    { h with
      peerCookie := hello.cookie
      peerMaxStreams := min h.peerMaxStreams hello.maxStreams
      peerInitialStreamWindow := hello.initialStreamWindow }
  modify fun c =>
    { c with
      config :=
        { c.config with maxDatagramSize := min c.config.maxDatagramSize hello.maxDatagramSize } }
  match c.handshake.clientNonce with
  | none => throw (.invalidState "receive server hello before client hello")
  | some clientNonce => do
      let transcriptHash := handshakeTranscriptHash suite c.handshake.connectionId clientNonce
        hello.serverNonce (c.handshake.keyPair.publicKey suite) hello.serverPublicKey
      let sharedSecret ← ofExcept .crypto (c.handshake.keyPair.agree suite hello.serverPublicKey)
      let sessionKeys ← ofExcept .crypto (deriveSessionKeys suite sharedSecret transcriptHash)
      ofExcept .crypto
        (sessionKeys.verifyFinished suite .server transcriptHash hello.serverFinished)
      modifyHandshake fun h =>
        { h with transcriptHash := some transcriptHash, sessionKeys := some sessionKeys }
      return (.handshakeAck ⟨hello.cookie, sessionKeys.finishedTag suite .client transcriptHash⟩,
        hello.initialConnectionWindow)

/-- `HandshakeState::receive_retry`. -/
def receiveRetry (packetType : PacketType) (cookie : Bytes) : ConnM Frame := do
  let c ← get
  if c.role ≠ .client || packetType ≠ .retry || c.state ≠ .handshaking || cookie.isEmpty
      || cookie.length > maxCookieLen then
    throw .invalidPacketType
  if c.handshake.clientNonce.isNone then
    throw (.invalidState "receive retry before client hello")
  modify fun c => { c with config := { c.config with handshakeCookie := cookie } }
  let frame := (← get).clientHello suite
  modifyHandshake fun h => { h with frame := some frame }
  return frame

/-- `HandshakeState::receive_handshake_ack`. -/
def receiveHandshakeAck (packetType : PacketType) (ack : HandshakeAck) : ConnM Unit := do
  let c ← get
  if c.role ≠ .server || packetType ≠ .handshake || c.state ≠ .handshaking
      || ack.cookie ≠ c.handshake.peerCookie then
    throw .invalidPacketType
  match c.handshake.transcriptHash with
  | none =>
      throw (.invalidState "receive handshake acknowledgement before key exchange")
  | some transcriptHash =>
      match c.handshake.sessionKeys with
      | none =>
          throw (.invalidState "receive handshake acknowledgement without session keys")
      | some sessionKeys => do
          ofExcept .crypto
            (sessionKeys.verifyFinished suite .client transcriptHash ack.clientFinished)
          modify fun c => { c with timers := c.timers.cancelHandshake }

/-- `HandshakeState::on_timeout`: whether the connection is to be closed. -/
def onHandshakeTimeout : ConnM Bool := do
  let c ← get
  if c.state ≠ .handshaking then return false
  match c.handshake.frame with
  | none => return true
  | some frame => do
      if c.handshake.retries ≥ c.config.maxRetransmissions then return true
      modifyHandshake fun h => { h with retries := min (h.retries + 1) u32Max }
      modify (·.queueFront frame)
      onTimers (scheduleHandshake c.config.handshakeTimeout)
      return false

/-- The crypto role of a connection. -/
def ConnectionRole.cryptoRole : ConnectionRole → CryptoRole
  | .client => .client
  | .server => .server

/-- `Connection::activate_crypto`. -/
def activateCrypto : ConnM Unit := do
  let c ← get
  if c.packetCrypto.isSome then return
  match c.handshake.sessionKeys with
  | none => throw (.invalidState "establish connection without session keys")
  | some keys =>
      modify fun c => { c with packetCrypto := some (.new c.role.cryptoRole keys) }

/-! ## Frames received -/

/-- The state a `ClientHello` leads to, and its timer. -/
def enterState : Option ConnectionState → ConnM Unit
  | some nextState => do
      onTimers (scheduleHandshake (← get).config.handshakeTimeout)
      modify (·.setState nextState)
  | none => return

/-- `process_frame` on a `ClientHello`. -/
def processClientHello (packetType : PacketType) (hello : ClientHello) : ConnM Unit := do
  let (frame, nextState, connectionMaxOffset) ← receiveClientHello suite packetType hello
  modify fun c => { c with connectionSend := c.connectionSend.learn connectionMaxOffset }
  modifyHandshake fun h => { h with frame := some frame }
  modify (·.queue frame)
  if (← get).role = .server then activateCrypto
  enterState nextState

/-- `process_frame` on a `ServerHello`. -/
def processServerHello (packetType : PacketType) (hello : ServerHello) : ConnM Unit := do
  let (frame, connectionMaxOffset) ← receiveServerHello suite packetType hello
  modify fun c =>
    { c with connectionSend := c.connectionSend.setMaxOffset connectionMaxOffset }
  modifyHandshake fun h => { h with frame := some frame }
  modify fun c => { c.queue frame with timers := c.timers.cancelHandshake }
  modify (·.setState .established)
  activateCrypto

/-- `process_frame` on a `HandshakeAck`. -/
def processHandshakeAck (packetType : PacketType) (ack : HandshakeAck) : ConnM Unit := do
  receiveHandshakeAck suite packetType ack
  modify (·.setState .established)
  activateCrypto

/-- `process_frame` on a `Retry`. -/
def processRetry (packetType : PacketType) (cookie : Bytes) : ConnM Unit := do
  let frame ← receiveRetry suite packetType cookie
  modify (·.queueFront frame)
  onTimers (scheduleHandshake (← get).config.handshakeTimeout)

/-- The check the frames of an established connection start with. -/
def ensureData (packetType : PacketType) : ConnM Unit := do
  if packetType ≠ .data || (← get).state ≠ .established then throw .invalidPacketType

/-- `Connection::process_stream_open`. -/
def processStreamOpen (packetType : PacketType) (frame : StreamOpen) : ConnM Unit := do
  ensureData packetType
  let c ← get
  if frame.streamId % 2 ≠ c.role.peerStreamParity then throw (.invalidStreamId frame.streamId)
  match c.streams.sendWindow frame.streamId with
  | some existingWindow =>
      if existingWindow ≠ frame.initialReceiveWindow then
        throw (.invalidState "stream was opened with different parameters")
  | none => do
      if c.streams.len ≥ c.effectiveMaxStreams then throw .streamLimit
      onStreams (insertStream frame.streamId frame.bidirectional frame.initialReceiveWindow
        c.role.peerStreamParity c.config.initialStreamWindow)
      modify (·.emit (.streamOpened frame.streamId))

/-- `Connection::process_stream_data`. -/
def processStreamData (packetType : PacketType) (data : StreamData) : ConnM Unit := do
  ensureData packetType
  let c ← get
  let newBytes ← onStreams (newDataBytes data c.config.maxReceiveBuffer)
  match checkedAdd c.connectionReceive.uniqueReceived newBytes with
  | none => throw (.flowControlViolation none)
  | some connectionEnd => do
      ofExcept id (c.connectionReceive.check none connectionEnd newBytes)
      let status ← onStreams (insertData data)
      let connectionReceive ← ofExcept id (c.connectionReceive.account none newBytes)
      modify fun c => { c with connectionReceive := connectionReceive }
      if status.buffered > c.config.maxReceiveBuffer then throw .receiveBufferFull
      if status.readable then modify (·.emit (.streamReadable data.streamId))
      if status.finished && !status.readable then
        modify fun c => { c with streams := c.streams.finish data.streamId }
        modify (·.emit (.streamFinished data.streamId))

/-- `Connection::process_reset_stream`. -/
def processResetStream (packetType : PacketType) (reset : ResetStream) : ConnM Unit := do
  ensureData packetType
  onStreams (resetRecord reset.streamId reset.errorCode)
  modify (·.emit (.streamReset reset.streamId reset.errorCode))

/-- `Connection::process_max_stream_data`. -/
def processMaxStreamData (packetType : PacketType) (update : MaxStreamData) : ConnM Unit := do
  ensureData packetType
  onStreams (updateSendWindow update.streamId update.maxOffset)

/-- `Connection::process_max_data`. -/
def processMaxData (packetType : PacketType) (maxOffset : Nat) : ConnM Unit := do
  ensureData packetType
  modify fun c => { c with connectionSend := c.connectionSend.update maxOffset }

/-- `Connection::process_ping`. -/
def processPing (packetType : PacketType) (nonce : Nat) : ConnM Unit := do
  ensureData packetType
  modify (·.queue (.pong nonce))

/-- `Connection::process_connection_close`. -/
def processConnectionClose (packetType : PacketType) (frame : ConnectionClose) : ConnM Unit := do
  if packetType ≠ .close then throw .invalidPacketType
  modify fun c =>
    ({ c with closeError := some frame.errorCode, timers := c.timers.cancelAll }.setState
      .closed).emit (.connectionClosed frame.errorCode)

/-- `Connection::process_frame`. -/
def processFrame (packetType : PacketType) : Frame → ConnM Unit
  | .clientHello hello => processClientHello suite packetType hello
  | .serverHello hello => processServerHello suite packetType hello
  | .handshakeAck ack => processHandshakeAck suite packetType ack
  | .retry cookie => processRetry suite packetType cookie
  | .streamOpen frame => processStreamOpen packetType frame
  | .streamData data => processStreamData packetType data
  | .resetStream reset => processResetStream packetType reset
  | .maxStreamData update => processMaxStreamData packetType update
  | .maxData maxOffset => processMaxData packetType maxOffset
  | .ping nonce => processPing packetType nonce
  | .pong _ => return
  | .connectionClose frame => processConnectionClose packetType frame
  | .ack _ => return

/-! ## Datagrams received -/

/-- The loop of `on_datagram` that applies the ACK frames. -/
def applyAcks : List Frame → ConnM Unit
  | [] => return
  | .ack ack :: rest => do
      closeOnLimit (applyAck ack)
      applyAcks rest
  | _ :: rest => applyAcks rest

/-- The loop of `on_datagram` over the other frames. -/
def processFrames (packetType : PacketType) : List Frame → ConnM Unit
  | [] => return
  | frame :: rest => do
      if !frame.isAck then processFrame suite packetType frame
      processFrames packetType rest

/-- `TransportState::record_received`; a Retry has no packet number. -/
def recordReceived (packet : Packet) : ConnM Bool := do
  if packet.packetType = .retry then return true
  let c ← get
  let (isNew, received) := c.transport.received.record packet.packetNumber c.now
  modifyTransport fun t => { t with received := received }
  return isNew

/-- `Connection::on_datagram`. -/
def onDatagram (packet : Packet) : ConnM Unit := do
  let c ← get
  if c.state = .closed then throw (.invalidState "receive on closed connection")
  if packet.connectionId ≠ c.id then throw .connectionIdMismatch
  onTimers (scheduleIdle c.config.idleTimeout)
  let isNew ← recordReceived packet
  applyAcks packet.frames
  if isNew then processFrames suite packet.packetType packet.frames
  if packet.frames.any Frame.isAckEliciting then scheduleAck
  flush

/-- The packet in a datagram, decrypted where the header says so. -/
def decodeDatagram (bytes : Bytes) : ConnM Packet := do
  let c ← get
  let flags ← ofExcept .protocol (peekPacketFlags bytes c.config.maxDatagramSize)
  if flags.contains encryptedFlag then
    match c.packetCrypto with
    | none => throw (.invalidState "receive encrypted packet before handshake completion")
    | some crypto => do
        let (packet, crypto) := decodeEncryptedPacket suite bytes c.config.maxDatagramSize crypto
        modify fun c => { c with packetCrypto := some crypto }
        ofExcept .protocol packet
  else ofExcept .protocol (decodePacket bytes c.config.maxDatagramSize)

/-- `Connection::on_datagram_bytes`. -/
def onDatagramBytes (bytes : Bytes) : ConnM Unit := do
  onDatagram suite (← decodeDatagram suite bytes)

/-- `Connection::encode_packet`. -/
def Connection.encode (c : Connection) (packet : Packet) : Except CoreError Bytes :=
  let encoded := match c.packetCrypto with
    | some crypto =>
        if c.encrypts packet.packetType then
          encodePacketWithCrypto suite packet c.config.maxDatagramSize crypto
        else encodePacket packet c.config.maxDatagramSize
    | none => encodePacket packet c.config.maxDatagramSize
  match encoded with
  | .ok bytes => .ok bytes
  | .error error => .error (.protocol error)

end

/-! ## Calls of the application -/

/-- `Connection::open_stream`. -/
def openStream : ConnM Nat := do
  ensureEstablished "open stream"
  let c ← get
  if c.streams.len ≥ c.effectiveMaxStreams then throw .streamLimit
  let streamId ← onStreams (openLocal c.role c.handshake.peerInitialStreamWindow
    c.config.initialStreamWindow)
  modify (·.queue (.streamOpen ⟨streamId, c.handshake.peerInitialStreamWindow, true⟩))
  flush
  return streamId

/-- `Connection::write_stream`. -/
def writeStream (streamId : Nat) (data : Bytes) (fin : Bool) : ConnM Nat := do
  ensureEstablished "write stream"
  let c ← get
  let written ← onStreams (writeRecord streamId data fin c.config.maxSendBuffer
    c.maxStreamDataChunk)
  flush
  return written

/-- `Connection::read_stream`. What `consume` answers for the connection is not
used. -/
def readStream (streamId maxLen : Nat) : ConnM ReadResult := do
  let ⟨data, eof, windowUpdate⟩ ← onStreams (readRecord streamId maxLen)
  match windowUpdate with
  | some maxOffset => modify (·.queue (.maxStreamData ⟨streamId, maxOffset⟩))
  | none => pure ()
  if !data.isEmpty then
    modify fun c => { c with connectionReceive := (c.connectionReceive.consume data.length).2 }
  if eof then modify (·.emit (.streamFinished streamId))
  flush
  return ⟨data, eof⟩

/-- `Connection::close`. -/
def close (errorCode : Nat) (reason : Bytes) : ConnM Unit := do
  if (← get).state = .closed then return
  modify fun c =>
    ({ c with closeError := some errorCode }.setState .closing).queue
      (.connectionClose ⟨errorCode, 0, reason⟩)
  onTimers (scheduleClose (← get).config.closeTimeout)
  flush

/-- `Connection::drain_output`. -/
def drainOutput : ConnM (List CoreOutput) := do
  let c ← get
  set { c with output := [] }
  return c.output

/-! ## Time -/

/-- `Connection::process_timer`. -/
def processTimer : TimerEvent → ConnM Unit
  | .handshakeTimeout => do
      if (← get).state = .handshaking then
        if ← onHandshakeTimeout then close 1 (ascii "handshake timeout")
  | .retransmit packetNumber generation =>
      closeOnLimit (processRetransmit packetNumber generation)
  | .ackDelay => modifyTransport (·.onAckTimer)
  | .keepalive => do
      if (← get).state = .established then modifyTransport (·.queueKeepalive)
      match (← get).config.keepaliveInterval with
      | some interval => onTimers (scheduleKeepalive interval)
      | none => return
  | .idleTimeout => do
      let c ← get
      if c.state ≠ .closed && c.state ≠ .closing then close 2 (ascii "idle timeout")
  | .closeTimeout =>
      modify fun c =>
        ({ c with timers := c.timers.cancelAll }.setState .closed).emit
          (.connectionClosed (c.closeError.getD 0))

/-- The loop of `advance_time` over the expired timers. -/
def processTimers : List TimerEvent → ConnM Unit
  | [] => return
  | event :: rest => do
      modify fun c => { c with timers := c.timers.clearSlot event }
      processTimer event
      processTimers rest

/-- `Connection::advance_time`. -/
def advanceTime (elapsed : Nat) : ConnM Unit := do
  let c ← get
  if c.now + elapsed > durationMax then throw (.invalidState "advance clock")
  set { c with now := c.now + elapsed }
  processTimers (← onTimers (advance elapsed))
  flush

/-! ## Construction -/

section

variable (suite : Suite)

/-- The calls of `Connection::new` on the connection it built. -/
def start (startHandshake : Bool) : ConnM Unit := do
  let c ← get
  onTimers (scheduleIdle c.config.idleTimeout)
  match c.config.keepaliveInterval with
  | some interval => onTimers (scheduleKeepalive interval)
  | none => pure ()
  if startHandshake then
    startClient suite
    flush

/-- `Connection::new`. -/
def Connection.new (role : ConnectionRole) (id : Nat) (config : ConnectionConfig)
    (entropy : Entropy) (startHandshake : Bool) : Except CoreError Connection := do
  match config.validate with
  | .error error => throw (.invalidConfig error)
  | .ok () => pure ()
  let handshake ← HandshakeState.new id config entropy
  let timers ← TimerState.new config entropy.order
  let connection : Connection := {
    role := role
    id := id
    config := config
    state := if startHandshake then .handshaking else .idle
    now := 0
    streams := { nextStreamNumber := role.localStreamParity }
    transport := .new config
    handshake := handshake
    packetCrypto := none
    timers := timers
    output := []
    connectionSend := { connectionMaxOffset := config.initialConnectionWindow }
    connectionReceive := .new config.initialConnectionWindow
    closeError := none }
  match start suite startHandshake connection with
  | .ok () connection => return connection
  | .error error _ => throw error

/-- `Connection::new_client`. -/
def Connection.newClient (id : Nat) (config : ConnectionConfig) (entropy : Entropy) :
    Except CoreError Connection :=
  Connection.new suite .client id config entropy true

/-- `Connection::new_server`. -/
def Connection.newServer (id : Nat) (config : ConnectionConfig) (entropy : Entropy) :
    Except CoreError Connection :=
  Connection.new suite .server id config entropy false

end

end DartUdp.Core
