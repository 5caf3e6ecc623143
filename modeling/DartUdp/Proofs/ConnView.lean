import Mathlib.Logic.Function.Basic
import Mathlib.Logic.Relation
import DartUdp.Core.Net

/-!
# What a connection does, as edits

A view keeps what the properties of a connection are about: its state, its
streams, the frames it still has to send, the packets that are not acknowledged,
those it received and those it sends, and its limits. The clock, the timers, the
congestion window and the round-trip estimate only decide when something
happens, and are not in it.

Every operation is a sequence of edits of the view. An edit says where what it
writes came from: from the packet received, from the call, or from the view. Two
views of one operation are related by `Edits`, and an invariant is checked
against each edit once. The edits that lose a frame are there only under `L`;
an operation that ends well makes none of them.
-/

namespace DartUdp.Core

open DartUdp.Lib DartUdp.Udp

structure View where
  role : ConnectionRole
  id : Nat
  state : ConnectionState
  config : ConnectionConfig
  handshake : HandshakeState
  keys : Option SessionKeys
  streams : Nat → Option StreamRecord
  pending : List QueuedFrame
  unacked : Nat → Option SentPacket
  acked : List SentPacket
  received : List AckRange
  next : Nat
  queued : List Frame
  sends : List Packet
  send : SendFlowControl
  receive : ReceiveFlowControl

def Connection.view (c : Connection) : View where
  role := c.role
  id := c.id
  state := c.state
  config := c.config
  handshake := c.handshake
  keys := c.packetCrypto.map (·.keys)
  streams := fun id => c.streams.streams[id]?
  pending := c.transport.pendingFrames
  unacked := fun n => c.transport.sent[n]?
  acked := c.transport.acked
  received := c.transport.received.ranges
  next := c.transport.nextPacketNumber
  queued := c.transport.queued
  sends := packetsOf c.output
  send := c.connectionSend
  receive := c.connectionReceive

/-! ## The handshake, as functions -/

/-- What a server takes over from a `ClientHello`. -/
def HandshakeState.meetClient (h : HandshakeState) (hello : ClientHello) : HandshakeState :=
  { h with
    peerClientNonce := some hello.clientNonce
    peerCookie := hello.cookie
    peerMaxStreams := min h.peerMaxStreams hello.maxStreams
    peerInitialStreamWindow := hello.initialStreamWindow }

/-- What a client takes over from a `ServerHello`. -/
def HandshakeState.meetServer (h : HandshakeState) (hello : ServerHello) : HandshakeState :=
  { h with
    peerCookie := hello.cookie
    peerMaxStreams := min h.peerMaxStreams hello.maxStreams
    peerInitialStreamWindow := hello.initialStreamWindow }

/-- The datagram size both ends can take. -/
def ConnectionConfig.shrink (config : ConnectionConfig) (size : Nat) : ConnectionConfig :=
  { config with maxDatagramSize := min config.maxDatagramSize size }

section

variable (suite : Suite)

/-- The transcript a server has with the sender of a `ClientHello`. -/
def HandshakeState.serverTranscript (h : HandshakeState) (hello : ClientHello) : Bytes :=
  handshakeTranscriptHash suite h.connectionId hello.clientNonce h.localNonce
    hello.clientPublicKey (h.keyPair.publicKey suite)

/-- The transcript a client has with the sender of a `ServerHello`. -/
def HandshakeState.clientTranscript (h : HandshakeState) (clientNonce : Bytes)
    (hello : ServerHello) : Bytes :=
  handshakeTranscriptHash suite h.connectionId clientNonce hello.serverNonce
    (h.keyPair.publicKey suite) hello.serverPublicKey

/-- The keys shared with the owner of a public key. -/
def HandshakeState.Shares (h : HandshakeState) (peerPublicKey transcript : Bytes)
    (keys : SessionKeys) : Prop :=
  ∃ secret, h.keyPair.agree suite peerPublicKey = .ok secret ∧
    deriveSessionKeys suite secret transcript = .ok keys

/-- The `ClientHello` of a client. -/
def HandshakeState.clientHello (h : HandshakeState) (config : ConnectionConfig) : ClientHello where
  clientNonce := h.localNonce
  clientPublicKey := h.keyPair.publicKey suite
  maxDatagramSize := asU16 config.maxDatagramSize
  maxStreams := config.maxStreams
  initialConnectionWindow := config.initialConnectionWindow
  initialStreamWindow := config.initialStreamWindow
  cookie := config.handshakeCookie

/-- The `ServerHello` of a server that has met the client. -/
def HandshakeState.serverHello (h : HandshakeState) (config : ConnectionConfig)
    (keys : SessionKeys) (hello : ClientHello) : ServerHello where
  serverNonce := h.localNonce
  serverPublicKey := h.keyPair.publicKey suite
  serverFinished := keys.finishedTag suite .server (h.serverTranscript suite hello)
  maxDatagramSize := asU16 config.maxDatagramSize
  maxStreams := h.effectiveMaxStreams config
  initialConnectionWindow := config.initialConnectionWindow
  initialStreamWindow := config.initialStreamWindow
  cookie := hello.cookie

end

namespace View

def streamWindow (v : View) : Nat := v.config.initialStreamWindow

def connectionWindow (v : View) : Nat := v.config.initialConnectionWindow

def peerWindow (v : View) : Nat := v.handshake.peerInitialStreamWindow

/-- The hello the connection repeats. -/
def stored (v : View) : Option Frame := v.handshake.frame

/-- A `ClientHello` is taken in. -/
def hearClient (v : View) (hello : ClientHello) : View :=
  { v with
    handshake := v.handshake.meetClient hello
    config := if v.state = .established then v.config else v.config.shrink hello.maxDatagramSize }

/-- A `ClientHello` is answered. -/
def answerClient (v : View) (suite : Suite) (hello : ClientHello) (keys : SessionKeys) : View :=
  { v.hearClient hello with
    handshake :=
      { v.handshake.meetClient hello with
        transcriptHash := some (v.handshake.serverTranscript suite hello)
        sessionKeys := some keys
        frame := some (.serverHello ((v.handshake.meetClient hello).serverHello suite
          (v.hearClient hello).config keys hello)) }
    send := if v.state = .established then v.send
      else v.send.setMaxOffset hello.initialConnectionWindow }

/-- A `ServerHello` is taken in. -/
def hearServer (v : View) (hello : ServerHello) : View :=
  { v with
    handshake := v.handshake.meetServer hello
    config := v.config.shrink hello.maxDatagramSize }

/-- A `ServerHello` is answered. -/
def answerServer (v : View) (suite : Suite) (hello : ServerHello) (transcript : Bytes)
    (keys : SessionKeys) : View :=
  { v.hearServer hello with
    handshake :=
      { v.handshake.meetServer hello with
        transcriptHash := some transcript
        sessionKeys := some keys
        frame := some (.handshakeAck ⟨hello.cookie, keys.finishedTag suite .client transcript⟩) }
    send := v.send.setMaxOffset hello.initialConnectionWindow }

/-- The client starts over with the cookie it was given. -/
def retry (v : View) (suite : Suite) (cookie : Bytes) : View :=
  { v with
    config := { v.config with handshakeCookie := cookie }
    handshake :=
      { v.handshake with
        frame := some (.clientHello
          (v.handshake.clientHello suite { v.config with handshakeCookie := cookie })) } }

/-- The record of a stream written back. -/
def put (v : View) (streamId : Nat) (s : StreamRecord) : View :=
  { v with streams := Function.update v.streams streamId (some s) }

def enqueue (v : View) (frame : Frame) : View :=
  { v with pending := v.pending ++ [⟨frame, 0⟩], queued := v.queued ++ [frame] }

def enqueueFront (v : View) (frame : Frame) : View :=
  { v with pending := ⟨frame, 0⟩ :: v.pending, queued := v.queued ++ [frame] }

/-- A packet off the unacknowledged ones. -/
def forget (v : View) (packetNumber : Nat) : View :=
  { v with unacked := Function.update v.unacked packetNumber none }

/-- A frame back to where it came from. -/
def putBack (v : View) (frame : Frame) (retransmitCount : Nat) : View :=
  match frame with
  | .streamData data =>
      match v.streams data.streamId with
      | some s => v.put data.streamId { s with send := s.send.requeue data retransmitCount }
      | none => v
  | frame => { v with pending := ⟨frame, retransmitCount⟩ :: v.pending }

def putBackAll (v : View) (retransmitCount : Nat) (frames : List QueuedFrame) : View :=
  frames.foldl (fun v queued => v.putBack queued.frame retransmitCount) v

/-- A read of a stream: the new limit is announced when there is one, and what
was taken counts as consumed for the connection. -/
def read (v : View) (streamId maxLen : Nat) (s : StreamRecord) : View :=
  let result := (s.read maxLen).1
  let v := v.put streamId (s.read maxLen).2
  let v := match result.windowUpdate with
    | some maxOffset => v.enqueue (.maxStreamData ⟨streamId, maxOffset⟩)
    | none => v
  if result.data.isEmpty then v
  else { v with receive := (v.receive.consume result.data.length).2 }

/-- The packet a queued frame goes out in. -/
def packetFor (v : View) (frame : Frame) : Packet where
  packetType := packetType frame v.state
  flags := if frame.isAckEliciting then ⟨ackElicitingFlag⟩ else .empty
  connectionId := v.id
  packetNumber := v.next
  frames := [frame]

/-- The packet goes to the output under the next number. -/
def ship (v : View) (packet : Packet) : View :=
  { v with next := v.next + 1, sends := v.sends ++ [packet] }

/-- Stream data that goes out for the first time is accounted. -/
def account (v : View) (queued : QueuedFrame) : View :=
  match queued with
  | ⟨.streamData data, 0⟩ => { v with send := v.send.accountNewData data.data.length }
  | _ => v

/-- A packet waits to be acknowledged. -/
def track (v : View) (packetNumber : Nat) (packet : SentPacket) : View :=
  { v with unacked := Function.update v.unacked packetNumber (some packet) }

variable {v : View} {id i n : Nat}

@[simp] theorem put_self (v : View) (id : Nat) (s : StreamRecord) :
    (v.put id s).streams id = some s := Function.update_self ..

@[simp] theorem put_of_ne {s : StreamRecord} (h : i ≠ id) :
    (v.put id s).streams i = v.streams i := Function.update_of_ne h ..

/-- A stream that is there after a record was written back. -/
theorem put_cases {s s' : StreamRecord} (h : (v.put id s).streams i = some s') :
    i = id ∧ s' = s ∨ i ≠ id ∧ v.streams i = some s' := by
  by_cases hi : i = id
  · rw [hi, put_self] at h
    exact .inl ⟨hi, (Option.some.inj h).symm⟩
  · rw [put_of_ne hi] at h
    exact .inr ⟨hi, h⟩

/-- A stream that is not there after a record was written back was not there
before, and is another one. -/
theorem put_unknown {s : StreamRecord} (h : (v.put id s).streams i = none) :
    i ≠ id ∧ v.streams i = none := by
  by_cases hi : i = id
  · rw [hi, put_self] at h
    cases h
  · rw [put_of_ne hi] at h
    exact ⟨hi, h⟩

@[simp] theorem forget_self (v : View) (n : Nat) : (v.forget n).unacked n = none :=
  Function.update_self ..

@[simp] theorem forget_of_ne (h : i ≠ n) : (v.forget n).unacked i = v.unacked i :=
  Function.update_of_ne h ..

@[simp] theorem track_self (v : View) (n : Nat) (sp : SentPacket) :
    (v.track n sp).unacked n = some sp := Function.update_self ..

@[simp] theorem track_of_ne {sp : SentPacket} (h : i ≠ n) :
    (v.track n sp).unacked i = v.unacked i := Function.update_of_ne h ..

end View

/-- The frame is kept until it is acknowledged. -/
def isTracked : Frame → Bool
  | .clientHello _ => false
  | .serverHello _ => false
  | .handshakeAck _ => false
  | frame => frame.isAckEliciting

/-- What made the connection act. -/
inductive Cause where
  | packet (packet : Packet)
  | opening
  | writing (streamId : Nat) (data : Bytes) (fin : Bool)
  | reading (streamId maxLen : Nat)
  | draining
  | other

/-- A frame the connection makes out of nothing: it carries no limit and no
data. -/
def Own : Frame → Prop
  | .ping _ => True
  | .pong _ => True
  | .connectionClose _ => True
  | _ => False

/-- A frame of the handshake. -/
def Hello : Frame → Prop
  | .clientHello _ => True
  | .serverHello _ => True
  | .handshakeAck _ => True
  | _ => False

/-- The next frame to send, off the queue or off a stream. -/
inductive Takes (v : View) : QueuedFrame → View → Prop
  | pending (queued : QueuedFrame) (rest : List QueuedFrame) (h : v.pending = queued :: rest) :
      Takes v queued { v with pending := rest }
  | stream (id : Nat) (s : StreamRecord) (item : PendingData) (send : SendStream)
      (hs : v.streams id = some s) (hpop : s.send.popSendable = some (item, send)) :
      Takes v ⟨.streamData ⟨id, item.offset, item.fin, item.data⟩, item.retransmitCount⟩
        (v.put id { s with send := send })

/-- One change of the view. -/
inductive Edit (suite : Suite) (L : Prop) (k : Cause) (v : View) : View → Prop
  | turn (st : ConnectionState)
      (h : st = .closing ∨ st = .closed ∨
        v.state = .idle ∧ st = .handshaking ∧ v.handshake.sessionKeys.isSome) :
      Edit suite L k v { v with state := st }
  | hearClient (p : Packet) (hello : ClientHello) (hk : k = .packet p)
      (htype : p.packetType = .initial) (hf : .clientHello hello ∈ p.frames)
      (hrole : v.role = .server)
      (hnonce : ∀ nonce, v.handshake.peerClientNonce = some nonce → nonce = hello.clientNonce) :
      Edit suite L k v (v.hearClient hello)
  | answerClient (p : Packet) (hello : ClientHello) (keys : SessionKeys) (hk : k = .packet p)
      (htype : p.packetType = .initial) (hf : .clientHello hello ∈ p.frames)
      (hrole : v.role = .server)
      (hnonce : ∀ nonce, v.handshake.peerClientNonce = some nonce → nonce = hello.clientNonce)
      (hkeys : v.handshake.Shares suite hello.clientPublicKey
        (v.handshake.serverTranscript suite hello) keys) :
      Edit suite L k v (v.answerClient suite hello keys)
  | hearServer (p : Packet) (hello : ServerHello) (hk : k = .packet p)
      (hf : .serverHello hello ∈ p.frames) (hrole : v.role = .client)
      (hst : v.state = .handshaking) : Edit suite L k v (v.hearServer hello)
  | answerServer (p : Packet) (hello : ServerHello) (nonce : Bytes) (keys : SessionKeys)
      (hk : k = .packet p) (hf : .serverHello hello ∈ p.frames) (hrole : v.role = .client)
      (hst : v.state = .handshaking) (hnonce : v.handshake.clientNonce = some nonce)
      (hkeys : v.handshake.Shares suite hello.serverPublicKey
        (v.handshake.clientTranscript suite nonce hello) keys)
      (hver : keys.verifyFinished suite .server (v.handshake.clientTranscript suite nonce hello)
        hello.serverFinished = .ok ()) :
      Edit suite L k v
        (v.answerServer suite hello (v.handshake.clientTranscript suite nonce hello) keys)
  | secure (keys : SessionKeys) (hkeys : v.handshake.sessionKeys = some keys)
      (hnone : v.keys = none) (hrole : v.role = .server) : Edit suite L k v { v with keys := keys }
  | establish (keys : SessionKeys) (hst : v.state = .handshaking)
      (hkeys : v.handshake.sessionKeys = some keys)
      (hwhy : v.role = .client ∨
        v.role = .server ∧ ∃ p a transcript, k = .packet p ∧ .handshakeAck a ∈ p.frames ∧
          a.cookie = v.handshake.peerCookie ∧ v.handshake.transcriptHash = some transcript ∧
          keys.verifyFinished suite .client transcript a.clientFinished = .ok ()) :
      Edit suite L k v { v with state := .established, keys := some (v.keys.getD keys) }
  | retry (p : Packet) (cookie : Bytes) (hk : k = .packet p) (hf : .retry cookie ∈ p.frames)
      (hrole : v.role = .client) (hst : v.state = .handshaking) :
      Edit suite L k v (v.retry suite cookie)
  | retries (n : Nat) :
      Edit suite L k v { v with handshake := { v.handshake with retries := n } }
  | enqueue (f : Frame) (h : Own f ∨ v.stored = some f) : Edit suite L k v (v.enqueue f)
  | enqueueFront (f : Frame) (h : Own f ∨ v.stored = some f) : Edit suite L k v (v.enqueueFront f)
  | opened (id : Nat) (hk : k = .opening) (hst : v.state = .established)
      (hs : v.streams id = none) :
      Edit suite L k v (v.put id (.new id true v.peerWindow v.streamWindow))
  | announce (id : Nat) (hk : k = .opening) (hst : v.state = .established)
      (hs : (v.streams id).isSome) :
      Edit suite L k v (v.enqueue (.streamOpen ⟨id, v.peerWindow, true⟩))
  | accept (p : Packet) (o : StreamOpen) (hk : k = .packet p) (hf : .streamOpen o ∈ p.frames)
      (hst : v.state = .established) (hs : v.streams o.streamId = none) :
      Edit suite L k v (v.put o.streamId
        (.new o.streamId o.bidirectional o.initialReceiveWindow v.streamWindow))
  | write (id : Nat) (data : Bytes) (fin : Bool) (s : StreamRecord) (maxBuffer maxChunk n : Nat)
      (send : SendStream) (hk : k = .writing id data fin) (hst : v.state = .established)
      (hs : v.streams id = some s) (hopen : s.state = .opened)
      (hw : s.send.write data fin maxBuffer maxChunk = .ok (n, send)) :
      Edit suite L k v (v.put id { s with send := send })
  | read (id maxLen : Nat) (s : StreamRecord) (hk : k = .reading id maxLen)
      (hs : v.streams id = some s) : Edit suite L k v (v.read id maxLen s)
  | insert (p : Packet) (d : StreamData) (s : StreamRecord) (newBytes n : Nat)
      (recv : ReceiveStream) (hk : k = .packet p) (hf : .streamData d ∈ p.frames)
      (hst : v.state = .established) (hs : v.streams d.streamId = some s)
      (hopen : s.state = .opened) (hnew : s.recv.newBytes d.offset d.data = .ok newBytes)
      (hroom : v.receive.uniqueReceived + newBytes ≤ v.receive.maxOffset)
      (hrun : insertSegment d.offset d.data d.fin s.recv = .ok n recv)
      (hbuffer : newBytes ≤ v.config.maxReceiveBuffer - s.recv.bufferedLen) :
      Edit suite L k v
        { v.put d.streamId { s with recv := recv } with
          receive :=
            { v.receive with uniqueReceived := v.receive.uniqueReceived + newBytes } }
  | reject (p : Packet) (d : StreamData) (s : StreamRecord) (e : CoreError)
      (recv : ReceiveStream) (hl : L) (hk : k = .packet p) (hf : .streamData d ∈ p.frames)
      (hs : v.streams d.streamId = some s) (hopen : s.state = .opened)
      (hrun : insertSegment d.offset d.data d.fin s.recv = .error e recv) :
      Edit suite L k v (v.put d.streamId { s with recv := recv })
  | finish (id : Nat) (s : StreamRecord) (hs : v.streams id = some s)
      (hfin : s.recv.isFinished = true) : Edit suite L k v (v.put id { s with state := .finished })
  | limit (p : Packet) (u : MaxStreamData) (s : StreamRecord) (hk : k = .packet p)
      (hf : .maxStreamData u ∈ p.frames) (hs : v.streams u.streamId = some s) :
      Edit suite L k v (v.put u.streamId { s with send := s.send.updateWindow u.maxOffset })
  | grant (p : Packet) (m : Nat) (hk : k = .packet p) (hf : .maxData m ∈ p.frames) :
      Edit suite L k v { v with send := v.send.update m }
  | reset (p : Packet) (r : ResetStream) (s : StreamRecord) (hk : k = .packet p)
      (hf : .resetStream r ∈ p.frames) (hs : v.streams r.streamId = some s) :
      Edit suite L k v (v.put r.streamId { s with state := .reset r.errorCode })
  | record (p : Packet) (ranges : List AckRange) (hk : k = .packet p)
      (h : ∀ n, ranges.any (·.contains n) = true →
        v.received.any (·.contains n) = true ∨ n = p.packetNumber)
      (htype : p.packetType ≠ .retry)
      (hranges : ∃ receivedAt now,
        ranges = (ReceivedPackets.record ⟨v.received, receivedAt⟩ p.packetNumber now).2.ranges) :
      Edit suite L k v { v with received := ranges }
  | ack (p : Packet) (a : AckFrame) (n : Nat) (sp : SentPacket) (hk : k = .packet p)
      (hf : .ack a ∈ p.frames) (hc : a.covers n = true) (hs : v.unacked n = some sp) :
      Edit suite L k v { v.forget n with acked := v.acked ++ [sp] }
  | lose (n count : Nat) (sp : SentPacket) (hs : v.unacked n = some sp) (hc : 0 < count)
      (hknown : ∀ q ∈ sp.frames, ∀ d, q.frame = .streamData d → (v.streams d.streamId).isSome) :
      Edit suite L k v ((v.forget n).putBackAll count sp.frames.reverse)
  | drop (n count m : Nat) (sp : SentPacket) (hl : L) (hs : v.unacked n = some sp)
      (hc : 0 < count) :
      Edit suite L k v ((v.forget n).putBackAll count (sp.frames.reverse.take m))
  | sendAck (a : AckFrame)
      (hc : ∀ n, a.covers n = true → v.received.any (·.contains n) = true)
      (hnext : v.next < u64Max) :
      Edit suite L k v (v.ship ⟨.data, .empty, v.id, v.next, [.ack a]⟩)
  | emit (q : QueuedFrame) (v₁ : View) (sp : SentPacket) (ht : Takes v q v₁)
      (henc : ∃ payload, encodeFrames (v.packetFor q.frame) = .ok payload)
      (hflow : ∀ d, q.frame = .streamData d →
        v.send.canSend d.data.length (q.retransmitCount != 0) = true)
      (hframes : sp.frames = [q]) (hcount : sp.retransmitCount = q.retransmitCount)
      (htracked : isTracked q.frame = true) (hnext : v.next < u64Max) :
      Edit suite L k v (((v₁.account q).ship (v.packetFor q.frame)).track v.next sp)
  | pass (q : QueuedFrame) (v₁ : View) (ht : Takes v q v₁)
      (henc : ∃ payload, encodeFrames (v.packetFor q.frame) = .ok payload)
      (hflow : ∀ d, q.frame = .streamData d →
        v.send.canSend d.data.length (q.retransmitCount != 0) = true)
      (htracked : L ∨ isTracked q.frame = false) (hnext : v.next < u64Max) :
      Edit suite L k v ((v₁.account q).ship (v.packetFor q.frame))
  | lost (q : QueuedFrame) (v₁ : View) (next : Nat) (hl : L) (ht : Takes v q v₁)
      (hn : next = v.next ∨ v.next ≤ next ∧ q ∈ v.pending ∧ ∃ d, q.frame = .streamData d) :
      Edit suite L k v { v₁ with next := next }
  | back (q : QueuedFrame) (v₁ : View) (ht : Takes v q v₁) :
      Edit suite L k v (v₁.putBack q.frame q.retransmitCount)
  | drain (hk : k = .draining) : Edit suite L k v { v with sends := [] }

/-- A sequence of changes of the view. -/
abbrev Edits (suite : Suite) (L : Prop) (k : Cause) : View → View → Prop :=
  Relation.ReflTransGen (Edit suite L k)

/-- The program only edits the view, and loses nothing when it ends well. -/
abbrev Does (suite : Suite) (k : Cause) {α : Type} (m : ConnM α) (c : Connection) : Prop :=
  Ends m c (fun _ c' => Edits suite False k c.view c'.view)
    fun _ c' => Edits suite True k c.view c'.view

variable {suite : Suite}

theorem Edit.mono {L : Prop} {k : Cause} {v v' : View} (h : Edit suite False k v v') :
    Edit suite L k v v' := by
  cases h with
  | turn st h => exact .turn st h
  | hearClient p hello hk htype hf hrole hnonce =>
      exact .hearClient p hello hk htype hf hrole hnonce
  | answerClient p hello keys hk htype hf hrole hnonce hkeys =>
      exact .answerClient p hello keys hk htype hf hrole hnonce hkeys
  | hearServer p hello hk hf hrole hst => exact .hearServer p hello hk hf hrole hst
  | answerServer p hello nonce keys hk hf hrole hst hnonce hkeys hver =>
      exact .answerServer p hello nonce keys hk hf hrole hst hnonce hkeys hver
  | secure keys hkeys hnone hrole => exact .secure keys hkeys hnone hrole
  | establish keys hst hkeys hwhy => exact .establish keys hst hkeys hwhy
  | retry p cookie hk hf hrole hst => exact .retry p cookie hk hf hrole hst
  | retries n => exact .retries n
  | enqueue f h => exact .enqueue f h
  | enqueueFront f h => exact .enqueueFront f h
  | opened id hk hst hs => exact .opened id hk hst hs
  | announce id hk hst hs => exact .announce id hk hst hs
  | accept p o hk hf hst hs => exact .accept p o hk hf hst hs
  | write id data fin s mb mc n send hk hst hs hopen hw =>
      exact .write id data fin s mb mc n send hk hst hs hopen hw
  | read id maxLen s hk hs => exact .read id maxLen s hk hs
  | insert p d s newBytes n recv hk hf hst hs hopen hnew hroom hrun hbuffer =>
      exact .insert p d s newBytes n recv hk hf hst hs hopen hnew hroom hrun hbuffer
  | reject p d s e recv hl => exact hl.elim
  | finish id s hs hfin => exact .finish id s hs hfin
  | limit p u s hk hf hs => exact .limit p u s hk hf hs
  | grant p m hk hf => exact .grant p m hk hf
  | reset p r s hk hf hs => exact .reset p r s hk hf hs
  | record p ranges hk h htype hranges => exact .record p ranges hk h htype hranges
  | ack p a n sp hk hf hc hs => exact .ack p a n sp hk hf hc hs
  | lose n count sp hs hc hknown => exact .lose n count sp hs hc hknown
  | drop n count m sp hl => exact hl.elim
  | sendAck a hc hnext => exact .sendAck a hc hnext
  | emit q v₁ sp ht henc hflow hframes hcount htracked hnext =>
      exact .emit q v₁ sp ht henc hflow hframes hcount htracked hnext
  | pass q v₁ ht henc hflow htracked hnext =>
      exact .pass q v₁ ht henc hflow (.inr (htracked.resolve_left id)) hnext
  | lost q v₁ next hl => exact hl.elim
  | back q v₁ ht => exact .back q v₁ ht
  | drain hk => exact .drain hk

/-- What needs nothing from outside can be done under any cause. -/
theorem Edit.anyway {L : Prop} {k : Cause} {v v' : View} (h : Edit suite L .other v v') :
    Edit suite L k v v' := by
  cases h with
  | turn st h => exact .turn st h
  | hearClient p hello hk => cases hk
  | answerClient p hello keys hk => cases hk
  | hearServer p hello hk => cases hk
  | answerServer p hello nonce keys hk => cases hk
  | secure keys hkeys hnone hrole => exact .secure keys hkeys hnone hrole
  | establish keys hst hkeys hwhy =>
      refine .establish keys hst hkeys (hwhy.imp_right fun h => ?_)
      obtain ⟨_, p, _, _, hk, _⟩ := h
      cases hk
  | retry p cookie hk => cases hk
  | retries n => exact .retries n
  | enqueue f h => exact .enqueue f h
  | enqueueFront f h => exact .enqueueFront f h
  | opened id hk => cases hk
  | announce id hk => cases hk
  | accept p o hk => cases hk
  | write id data fin s mb mc n send hk => cases hk
  | read id maxLen s hk => cases hk
  | insert p d s newBytes n recv hk => cases hk
  | reject p d s e recv hl hk => cases hk
  | finish id s hs hfin => exact .finish id s hs hfin
  | limit p u s hk => cases hk
  | grant p m hk => cases hk
  | reset p r s hk => cases hk
  | record p ranges hk => cases hk
  | ack p a n sp hk => cases hk
  | lose n count sp hs hc hknown => exact .lose n count sp hs hc hknown
  | drop n count m sp hl hs hc => exact .drop n count m sp hl hs hc
  | sendAck a hc hnext => exact .sendAck a hc hnext
  | emit q v₁ sp ht henc hflow hframes hcount htracked hnext =>
      exact .emit q v₁ sp ht henc hflow hframes hcount htracked hnext
  | pass q v₁ ht henc hflow htracked hnext => exact .pass q v₁ ht henc hflow htracked hnext
  | lost q v₁ next hl ht hn => exact .lost q v₁ next hl ht hn
  | back q v₁ ht => exact .back q v₁ ht
  | drain hk => cases hk

theorem Edits.mono {L : Prop} {k : Cause} {v v' : View} (h : Edits suite False k v v') :
    Edits suite L k v v' := h.lift id fun _ _ => Edit.mono

theorem Edits.anyway {L : Prop} {k : Cause} {v v' : View} (h : Edits suite L .other v v') :
    Edits suite L k v v' := h.lift id fun _ _ => Edit.anyway

/-! ## What taking and putting back leave alone -/

/-- The receiving side of a stream. -/
def StreamRecord.inbound (s : StreamRecord) : StreamState × ReceiveStream × ReceiveFlowControl :=
  (s.state, s.recv, s.recvFlow)

/-- Only the queue of frames and the sending sides of the streams differ. -/
def View.Outward (v v' : View) : Prop :=
  ∃ streams pending, v' = { v with streams := streams, pending := pending } ∧
    ∀ id, (streams id).map StreamRecord.inbound = (v.streams id).map StreamRecord.inbound

theorem View.Outward.refl (v : View) : v.Outward v := ⟨v.streams, v.pending, rfl, fun _ => rfl⟩

theorem View.Outward.trans {v v' v'' : View} (h : v.Outward v') (h' : v'.Outward v'') :
    v.Outward v'' := by
  obtain ⟨streams, pending, rfl, hin⟩ := h
  obtain ⟨streams', pending', rfl, hin'⟩ := h'
  exact ⟨streams', pending', rfl, fun id => (hin' id).trans (hin id)⟩

theorem View.Outward.unknown {v v' : View} (h : v.Outward v') {id : Nat} :
    v'.streams id = none ↔ v.streams id = none := by
  obtain ⟨streams, pending, rfl, hin⟩ := h
  rw [← Option.map_eq_none_iff (f := StreamRecord.inbound),
    ← Option.map_eq_none_iff (x := v.streams id) (f := StreamRecord.inbound)]
  exact Eq.congr_left (hin id)

theorem View.Outward.known {v v' : View} (h : v.Outward v') {id : Nat} {s' : StreamRecord}
    (hs : v'.streams id = some s') :
    ∃ s, v.streams id = some s ∧ s'.state = s.state ∧ s'.recv = s.recv ∧
      s'.recvFlow = s.recvFlow := by
  obtain ⟨streams, pending, rfl, hin⟩ := h
  have heq := hin id
  rw [show streams id = some s' from hs, Option.map_some, eq_comm, Option.map_eq_some_iff] at heq
  obtain ⟨s, hs, heq⟩ := heq
  simp only [StreamRecord.inbound, Prod.mk.injEq] at heq
  exact ⟨s, hs, heq.1.symm, heq.2.1.symm, heq.2.2.symm⟩

theorem View.outward_put {v : View} {id : Nat} {s s' : StreamRecord} (hs : v.streams id = some s)
    (h : s'.inbound = s.inbound) : v.Outward (v.put id s') := by
  refine ⟨_, v.pending, rfl, fun i => ?_⟩
  by_cases hi : i = id
  · rw [hi, Function.update_self, hs, Option.map_some, Option.map_some, h]
  · rw [Function.update_of_ne hi]

theorem View.outward_putBack (v : View) (frame : Frame) (n : Nat) :
    v.Outward (v.putBack frame n) := by
  unfold View.putBack
  split
  · split
    · next s hs => exact v.outward_put hs rfl
    · exact .refl v
  · exact ⟨v.streams, _, rfl, fun _ => rfl⟩

theorem View.outward_putBackAll (v : View) (n : Nat) (frames : List QueuedFrame) :
    v.Outward (v.putBackAll n frames) := by
  induction frames generalizing v with
  | nil => exact .refl v
  | cons q rest ih => exact (v.outward_putBack q.frame n).trans (ih _)

theorem Takes.outward {v v' : View} {q : QueuedFrame} (h : Takes v q v') : v.Outward v' := by
  cases h with
  | pending rest h => exact ⟨v.streams, _, rfl, fun _ => rfl⟩
  | stream id s item send hs hpop => exact v.outward_put hs rfl

theorem View.account_eq (v : View) (q : QueuedFrame) :
    ∃ sent, v.account q = { v with send := { v.send with connectionSentOffset := sent } } := by
  unfold View.account
  split
  · exact ⟨_, rfl⟩
  · exact ⟨v.send.connectionSentOffset, rfl⟩

/-! ## What no edit changes -/

theorem View.Outward.fields {v v' : View} (h : v.Outward v') :
    v'.role = v.role ∧ v'.id = v.id ∧ v'.streamWindow = v.streamWindow ∧
      v'.connectionWindow = v.connectionWindow ∧ v'.receive = v.receive := by
  obtain ⟨streams, pending, rfl, _⟩ := h
  exact ⟨rfl, rfl, rfl, rfl, rfl⟩

/-- What holds with the stream read, its new limit queued where there is one,
and survives the accounting of what was taken, holds after the read. -/
theorem View.read_rule {P : View → Prop} {v : View} {id maxLen : Nat} {s : StreamRecord}
    (hannounced : ∀ m, (s.read maxLen).1.windowUpdate = some m →
      P ((v.put id (s.read maxLen).2).enqueue (.maxStreamData ⟨id, m⟩)))
    (hsilent : (s.read maxLen).1.windowUpdate = none → P (v.put id (s.read maxLen).2))
    (hconsumed : ∀ (v' : View) (amount : Nat), P v' →
      P { v' with receive := (v'.receive.consume amount).2 }) :
    P (v.read id maxLen s) := by
  unfold View.read
  dsimp only
  split
  · split
    · next m hm => exact hannounced m hm
    · next hm => exact hsilent hm
  · split
    · next m hm => exact hconsumed _ _ (hannounced m hm)
    · next hm => exact hconsumed _ _ (hsilent hm)

theorem View.read_eq (v : View) (id maxLen : Nat) (s : StreamRecord) :
    ∃ pending queued receive, v.read id maxLen s =
      { v.put id (s.read maxLen).2 with
        pending := pending, queued := queued, receive := receive } := by
  unfold View.read
  dsimp only
  split <;> split <;> exact ⟨_, _, _, rfl⟩

theorem View.hearClient_windows (v : View) (hello : ClientHello) :
    (v.hearClient hello).streamWindow = v.streamWindow ∧
      (v.hearClient hello).connectionWindow = v.connectionWindow := by
  unfold View.hearClient View.streamWindow View.connectionWindow
  dsimp only
  split <;> exact ⟨rfl, rfl⟩

/-- The role, the connection id and the configured windows stay. -/
theorem Edit.constant {L : Prop} {k : Cause} {v v' : View} (e : Edit suite L k v v') :
    v'.role = v.role ∧ v'.id = v.id ∧ v'.streamWindow = v.streamWindow ∧
      v'.connectionWindow = v.connectionWindow := by
  cases e with
  | hearClient p hello => exact ⟨rfl, rfl, v.hearClient_windows hello⟩
  | answerClient p hello => exact ⟨rfl, rfl, v.hearClient_windows hello⟩
  | read id maxLen s hk hs =>
      obtain ⟨_, _, _, heq⟩ := v.read_eq id maxLen s
      rw [heq]
      exact ⟨rfl, rfl, rfl, rfl⟩
  | lose n count sp hs hc hknown =>
      obtain ⟨hr, hi, hs, hc, _⟩ := (View.outward_putBackAll (v.forget n) count _).fields
      exact ⟨hr, hi, hs, hc⟩
  | drop n count m sp hl hs hc =>
      obtain ⟨hr, hi, hs, hc, _⟩ := (View.outward_putBackAll (v.forget n) count _).fields
      exact ⟨hr, hi, hs, hc⟩
  | emit q v₁ sp ht =>
      obtain ⟨hr, hi, hs, hc, _⟩ := ht.outward.fields
      obtain ⟨sent, hsent⟩ := v₁.account_eq q
      rw [hsent]
      exact ⟨hr, hi, hs, hc⟩
  | pass q v₁ ht =>
      obtain ⟨hr, hi, hs, hc, _⟩ := ht.outward.fields
      obtain ⟨sent, hsent⟩ := v₁.account_eq q
      rw [hsent]
      exact ⟨hr, hi, hs, hc⟩
  | lost q v₁ next hl ht =>
      obtain ⟨hr, hi, hs, hc, _⟩ := ht.outward.fields
      exact ⟨hr, hi, hs, hc⟩
  | back q v₁ ht =>
      obtain ⟨hr, hi, hs, hc, _⟩ := (ht.outward.trans (v₁.outward_putBack _ _)).fields
      exact ⟨hr, hi, hs, hc⟩
  | _ => exact ⟨rfl, rfl, rfl, rfl⟩

theorem Edits.constant {L : Prop} {k : Cause} {v v' : View} (h : Edits suite L k v v') :
    v'.role = v.role ∧ v'.id = v.id ∧ v'.streamWindow = v.streamWindow ∧
      v'.connectionWindow = v.connectionWindow := by
  induction h with
  | refl => exact ⟨rfl, rfl, rfl, rfl⟩
  | tail _ e ih =>
      obtain ⟨hr, hi, hs, hc⟩ := e.constant
      exact ⟨hr.trans ih.1, hi.trans ih.2.1, hs.trans ih.2.2.1, hc.trans ih.2.2.2⟩

end DartUdp.Core
