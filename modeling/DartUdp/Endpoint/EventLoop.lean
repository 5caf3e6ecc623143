import DartUdp.Core.Net
import DartUdp.Endpoint.Types

/-!
# The event loop of an endpoint

One task owns the connections and takes one turn after another: it lets time
pass for every connection, waits for a datagram, a command or a deadline, and
deals with that. After whatever was done to a connection it works off what the
core put out.

What the loop gets from outside, other than the datagrams and the commands, is a
`World`, which is asked by number. What goes in and out is kept as it goes: the
commands taken, the answers sent, the senders dropped without an answer, the
datagrams given to the socket and the connections handed to `accept`.
-/

namespace DartUdp.Endpoint

open Std (TreeMap)
open DartUdp.Lib DartUdp.Udp DartUdp.Core

/-- What `try_send` on the channel of `accept` comes back with. -/
inductive TrySend where
  | sent
  | full
  | closed
deriving DecidableEq

/-- What the system answers the n-th question of the loop with: the clocks, the
random source, the socket, the channel of `accept` and the order in which a hash
map lists its keys. `draws` is what `getrandom` fills an id with, over and over,
until it fails. -/
structure World where
  instant : Nat → Nat
  systemTime : Nat → SystemTime
  entropy : Nat → Entropy
  draws : Nat → List UInt64
  sendTo : Nat → Except Nat Nat
  tryAccept : Nat → TrySend
  order : Nat → List Nat → List Nat
  order_perm : ∀ n keys, (order n keys).Perm keys

structure EventLoop where
  config : EndpointConfig
  connections : TreeMap Nat Runtime := ∅
  questions : Nat := 0
  asked : List Command := []
  answers : List (Nat × Response) := []
  dropped : List Nat := []
  sent : List (SocketAddr × Bytes) := []
  handed : List Nat := []
  stopped : Bool := false

/-- A method on `&mut EventLoop` that can fail. -/
abbrev LoopM := EStateM EndpointError EventLoop

/-- A question to the world. -/
def ask {α : Type} (answers : Nat → α) : LoopM α := do
  let s ← get
  set { s with questions := s.questions + 1 }
  return answers s.questions

/-- `response.send`. -/
def respond (response : Nat) (result : Response) : LoopM Unit :=
  modify fun s => { s with answers := s.answers ++ [(response, result)] }

/-- The same answer to several. -/
def respondAll (result : Response) : List Nat → LoopM Unit
  | [] => return
  | response :: rest => do
      respond response result
      respondAll result rest

/-- The sender a map gives up for another. -/
def discard (response : Option Nat) : LoopM Unit :=
  modify fun s => { s with dropped := s.dropped ++ response.toList }

def EventLoop.put (s : EventLoop) (connectionId : Nat) (runtime : Runtime) : EventLoop :=
  { s with connections := s.connections.insert connectionId runtime }

/-- A write through `get_mut`. -/
def putRuntime (connectionId : Nat) (runtime : Runtime) : LoopM Unit :=
  modify (·.put connectionId runtime)

/-- What there is to do with the connection, if there is one of that id. -/
def withConnection {α : Type} (connectionId : Nat) (missing : LoopM α)
    (found : Runtime → LoopM α) : LoopM α := do
  match (← get).connections[connectionId]? with
  | none => missing
  | some runtime => found runtime

/-! ## Waiters -/

/-- `StreamError::ConnectionClosed`. -/
def closedWith (errorCode : Nat) : StreamError := .connectionClosed errorCode

/-- The pending reads of a connection, in the order of a walk over the map. -/
def drainReads (world : World) (errorCode : Nat) (runtime : Runtime) : LoopM Unit := do
  let keys ← ask fun n => world.order n runtime.pendingReads.keys
  respondAll (.read (.error (closedWith errorCode)))
    (keys.filterMap (runtime.pendingReads[·]?.map PendingRead.response))

def drainWrites (world : World) (errorCode : Nat) (runtime : Runtime) : LoopM Unit := do
  let keys ← ask fun n => world.order n runtime.pendingWrites.keys
  respondAll (.written (.error (closedWith errorCode)))
    (keys.filterMap (runtime.pendingWrites[·]?.map PendingWrite.response))

/-- `EventLoop::remove_runtime`. -/
def removeRuntime (world : World) (connectionId errorCode : Nat) : LoopM Unit :=
  withConnection connectionId (return) fun runtime => do
    modify fun s => { s with connections := s.connections.erase connectionId }
    drainReads world errorCode runtime
    drainWrites world errorCode runtime
    respondAll (.flushed (.error (closedWith errorCode))) runtime.pendingFlushes
    respondAll (.stream (.error (closedWith errorCode))) runtime.pendingAccepts
    respondAll (.connected (.error (.connectionClosed errorCode))) runtime.connectWaiter.toList

/-- The loop of `EventLoop::close_all`. -/
def removeAll (world : World) : List Nat → LoopM Unit
  | [] => return
  | connectionId :: rest => do
      removeRuntime world connectionId 0
      removeAll world rest

/-- `EventLoop::close_all`. -/
def closeAll (world : World) : LoopM Unit := do
  let s ← get
  removeAll world (← ask fun n => world.order n s.connections.keys)

/-- `EventLoop::fail_connection_waiters`. -/
def failConnectionWaiters (world : World) (connectionId errorCode : Nat) : LoopM Unit :=
  withConnection connectionId (return) fun runtime => do
    putRuntime connectionId
      { runtime with
        connectWaiter := none
        pendingAccepts := []
        pendingReads := ∅
        pendingWrites := ∅
        pendingFlushes := [] }
    drainReads world errorCode runtime
    drainWrites world errorCode runtime
    respondAll (.stream (.error (closedWith errorCode))) runtime.pendingAccepts
    respondAll (.connected (.error (.connectionClosed errorCode))) runtime.connectWaiter.toList
    respondAll (.flushed (.error (closedWith errorCode))) runtime.pendingFlushes

/-- `EventLoop::fail_stream_waiters`. -/
def failStreamWaiters (connectionId streamId errorCode : Nat) : LoopM Unit :=
  withConnection connectionId (return) fun runtime => do
    putRuntime connectionId
      { runtime with
        pendingReads := runtime.pendingReads.erase streamId
        pendingWrites := runtime.pendingWrites.erase streamId }
    respondAll (.read (.error (closedWith errorCode)))
      (runtime.pendingReads[streamId]?.map PendingRead.response).toList
    respondAll (.written (.error (closedWith errorCode)))
      (runtime.pendingWrites[streamId]?.map PendingWrite.response).toList

/-- `EventLoop::service_flushes`. -/
def serviceFlushes (connectionId : Nat) : LoopM Unit :=
  withConnection connectionId (return) fun runtime => do
    if runtime.core.isReliablyFlushed then
      putRuntime connectionId { runtime with pendingFlushes := [] }
      respondAll (.flushed (.ok ())) runtime.pendingFlushes

/-! ## Outputs of the core -/

/-- `EventLoop::on_stream_opened`. -/
def onStreamOpened (connectionId streamId : Nat) : LoopM Unit :=
  withConnection connectionId (return) fun runtime => do
    match runtime.pendingAccepts with
    | response :: rest => do
        putRuntime connectionId { runtime with pendingAccepts := rest }
        respond response (.stream (.ok streamId))
    | [] =>
        putRuntime connectionId
          { runtime with incomingStreams := runtime.incomingStreams ++ [streamId] }

/-- What `Command::Read` and `service_read` do with an answer of the core: it is
sent unless it is empty and there is more to come. -/
def answerRead (connectionId streamId : Nat) (runtime : Runtime) (pending : PendingRead) :
    LoopM Unit := do
  let (result, core) := call (readStream streamId pending.maxLen) runtime.core
  match result with
  | .ok result => do
      if !result.data.isEmpty || result.eof then
        putRuntime connectionId { runtime with core := core }
        respond pending.response (.read (.ok result))
      else
        discard (runtime.pendingReads[streamId]?.map PendingRead.response)
        putRuntime connectionId
          { runtime with
            core := core
            pendingReads := runtime.pendingReads.insert streamId pending }
  | .error error => do
      putRuntime connectionId { runtime with core := core }
      respond pending.response (.read (.error (.core error)))

/-- `EventLoop::service_read`. -/
def serviceRead (connectionId streamId : Nat) : LoopM Unit :=
  withConnection connectionId (return) fun runtime => do
    match runtime.pendingReads[streamId]? with
    | none => return
    | some pending =>
        answerRead connectionId streamId
          { runtime with pendingReads := runtime.pendingReads.erase streamId } pending

/-- `EventLoop::try_write`, and the body of the loop of `service_pending_writes`:
whether the request was answered. -/
def tryWrite (connectionId streamId : Nat) (runtime : Runtime) (pending : PendingWrite) :
    LoopM Bool := do
  let (result, core) := call (writeStream streamId pending.data pending.fin) runtime.core
  match result with
  | .ok amount => do
      putRuntime connectionId { runtime with core := core }
      respond pending.response (.written (.ok amount))
      return true
  | .error .sendBufferFull => do
      discard (runtime.pendingWrites[streamId]?.map PendingWrite.response)
      putRuntime connectionId
        { runtime with
          core := core
          pendingWrites := runtime.pendingWrites.insert streamId pending }
      return false
  | .error error => do
      putRuntime connectionId { runtime with core := core }
      respond pending.response (.written (.error (.core error)))
      return true

/-- The loop of `EventLoop::service_pending_writes`: whether any was answered. -/
def serviceWrites (connectionId : Nat) : List Nat → LoopM Bool
  | [] => return false
  | streamId :: rest =>
      withConnection connectionId (return false) fun runtime => do
        match runtime.pendingWrites[streamId]? with
        | none => serviceWrites connectionId rest
        | some pending => do
            let changed ← tryWrite connectionId streamId
              { runtime with pendingWrites := runtime.pendingWrites.erase streamId } pending
            return (← serviceWrites connectionId rest) || changed

/-- `EventLoop::service_pending_writes`. -/
def servicePendingWrites (world : World) (connectionId : Nat) : LoopM Bool := do
  let s ← get
  let keys := (s.connections[connectionId]?.map (·.pendingWrites.keys)).getD []
  serviceWrites connectionId (← ask fun n => world.order n keys)

/-- `EventLoop::on_established`. -/
def onEstablished (world : World) (connectionId : Nat) : LoopM Unit :=
  withConnection connectionId (return) fun runtime => do
    let welcome (runtime : Runtime) : LoopM Unit := do
      putRuntime connectionId { runtime with connectWaiter := none }
      respondAll (.connected (.ok connectionId)) runtime.connectWaiter.toList
    if runtime.isServer && !runtime.accepted then
      match ← ask world.tryAccept with
      | .sent => do
          modify fun s => { s with handed := s.handed ++ [connectionId] }
          welcome { runtime with accepted := true }
      | .full => removeRuntime world connectionId 0
      | .closed => removeRuntime world connectionId 0
    else welcome runtime

/-- `self.socket.send_to`, and the check that the datagram went out whole. -/
def sendTo (world : World) (bytes : Bytes) (peer : SocketAddr) : LoopM Unit := do
  modify fun s => { s with sent := s.sent ++ [(peer, bytes)] }
  match ← ask world.sendTo with
  | .error code => throw (.io (.os code))
  | .ok written =>
      if written ≠ bytes.length then
        throw (.io (.writeZero "UDP socket wrote a partial datagram"))

section

variable (suite : Suite) (hmac : (secret : Vector UInt8 32) → (message : Bytes) → Vector UInt8 32)
  (world : World)

/-- The match of `process_outputs`. -/
def processOutput (connectionId : Nat) : CoreOutput → LoopM Unit
  | .send packet =>
      withConnection connectionId (throw .closed) fun runtime => do
        let bytes ← ofExcept .core (runtime.core.encode suite packet)
        sendTo world bytes runtime.path.peer
  | .streamOpened streamId => onStreamOpened connectionId streamId
  | .streamReadable streamId => serviceRead connectionId streamId
  | .streamFinished streamId => serviceRead connectionId streamId
  | .streamReset streamId errorCode => failStreamWaiters connectionId streamId errorCode
  | .connectionStateChanged .established => onEstablished world connectionId
  | .connectionStateChanged _ => return
  | .connectionClosed errorCode => failConnectionWaiters world connectionId errorCode

/-- The inner loop of `process_outputs`. -/
def processEach (connectionId : Nat) : List CoreOutput → LoopM Unit
  | [] => return
  | output :: rest => do
      processOutput suite world connectionId output
      processEach connectionId rest

/-- One round of the loop of `process_outputs`: whether it goes on. -/
def processRound (connectionId : Nat) : LoopM Bool :=
  withConnection connectionId (return false) fun runtime => do
    putRuntime connectionId { runtime with core := { runtime.core with output := [] } }
    if runtime.core.output.isEmpty then servicePendingWrites world connectionId
    else
      processEach suite world connectionId runtime.core.output
      return true

/-- The loop of `process_outputs`. -/
def processLoop (connectionId : Nat) : Nat → LoopM Unit
  | 0 => return
  | fuel + 1 => do
      if ← processRound suite world connectionId then processLoop connectionId fuel

/-- Two rounds with outputs, the second with datagrams only, are followed by one
that answers a waiter or ends the loop. -/
def EventLoop.processFuel (s : EventLoop) (connectionId : Nat) : Nat :=
  (s.connections[connectionId]?).elim 1 fun runtime =>
    3 * (runtime.pendingReads.size + runtime.pendingWrites.size) + 3

/-- `EventLoop::process_outputs`. -/
def processOutputs (connectionId : Nat) : LoopM Unit := do
  processLoop suite world connectionId ((← get).processFuel connectionId)
  serviceFlushes connectionId
  withConnection connectionId (return) fun runtime => do
    if runtime.core.state = .closed then removeRuntime world connectionId 0

/-! ## Commands -/

/-- The loop of `EventLoop::allocate_connection_id`. -/
def firstFree (connections : TreeMap Nat Runtime) : List UInt64 → Except EndpointError Nat
  | [] => .error .randomnessUnavailable
  | raw :: rest =>
      if raw = 0 then firstFree connections rest
      else if connections.contains raw.toNat then firstFree connections rest
      else .ok raw.toNat

/-- `EventLoop::handle_connect`. -/
def handleConnect (path : PathBinding) (response : Nat) : LoopM Unit := do
  let s ← get
  if s.connections.size ≥ s.config.maxConnections then
    respond response (.connected (.error (.endpoint .connectionLimit)))
  else
    match firstFree s.connections (← ask world.draws) with
    | .error error => respond response (.connected (.error (.endpoint error)))
    | .ok id =>
        match Connection.newClient suite id s.config.connection (← ask world.entropy) with
        | .error error => respond response (.connected (.error (.core error)))
        | .ok core => do
            putRuntime id {
              core := core
              path := path
              isServer := false
              lastAdvancedAt := ← ask world.instant
              connectWaiter := some response
              accepted := true }
            processOutputs suite world id

/-- `EventLoop::handle_command`. -/
def handleCommand : Command → LoopM Unit
  | .connect path response => handleConnect suite world path response
  | .openStream connectionId response => do
      withConnection connectionId
        (respond response (.stream (.error (closedWith 0)))) fun runtime => do
          let (result, core) := call Core.openStream runtime.core
          putRuntime connectionId { runtime with core := core }
          respond response (.stream (result.mapError .core))
      processOutputs suite world connectionId
  | .acceptStream connectionId response =>
      withConnection connectionId
        (respond response (.stream (.error (closedWith 0)))) fun runtime =>
          match runtime.incomingStreams with
          | streamId :: rest => do
              putRuntime connectionId { runtime with incomingStreams := rest }
              respond response (.stream (.ok streamId))
          | [] =>
              putRuntime connectionId
                { runtime with pendingAccepts := runtime.pendingAccepts ++ [response] }
  | .read connectionId streamId maxLen response => do
      withConnection connectionId
        (respond response (.read (.error (closedWith 0)))) fun runtime =>
          answerRead connectionId streamId runtime ⟨maxLen, response⟩
      processOutputs suite world connectionId
  | .write connectionId streamId data fin response => do
      withConnection connectionId
        (respond response (.written (.error (closedWith 0)))) fun runtime => do
          let _ ← tryWrite connectionId streamId runtime ⟨data, fin, response⟩
      processOutputs suite world connectionId
  | .flush connectionId response => do
      withConnection connectionId
        (respond response (.flushed (.error (closedWith 0)))) fun runtime => do
          if runtime.core.isReliablyFlushed then respond response (.flushed (.ok ()))
          else
            putRuntime connectionId
              { runtime with pendingFlushes := runtime.pendingFlushes ++ [response] }
      processOutputs suite world connectionId
  | .close connectionId errorCode reason response => do
      withConnection connectionId
        (respond response (.closed (.error (.connectionClosed 0)))) fun runtime => do
          let (result, core) := call (Core.close errorCode reason) runtime.core
          putRuntime connectionId { runtime with core := core }
          respond response (.closed (result.mapError .core))
      processOutputs suite world connectionId
  | .shutdown => return

/-! ## Datagrams -/

/-- `hello.client_nonce`, which is an array in the source. -/
def nonceOf (hello : ClientHello) : Vector UInt8 nonceLen :=
  Vector.ofFn fun i => hello.clientNonce.getD i 0

/-- `EventLoop::cookie_is_valid`. -/
def cookieIsValid (peer : SocketAddr) (id : Nat) (hello : ClientHello) : LoopM Bool := do
  let config := (← get).config
  match config.retry.cookieSecret with
  | none => return false
  | some secret =>
      return validateCookie hmac secret hello.cookie (← ask world.systemTime)
        ⟨peer, UInt64.ofNat id, nonceOf hello, config.retry.cookieTtl, config.retry.clockSkew⟩

/-- `EventLoop::send_retry`. -/
def sendRetry (peer : SocketAddr) (id : Nat) (hello : ClientHello) (receivedLen : Nat) :
    LoopM Unit := do
  let config := (← get).config
  match config.retry.cookieSecret with
  | none => return
  | some secret => do
      let cookie ← ofExcept (fun _ => .randomnessUnavailable)
        (issueCookie hmac secret peer (UInt64.ofNat id) (nonceOf hello) (← ask world.systemTime))
      let bytes ← ofExcept .protocol
        (encodePacket (retryPacket id cookie) config.connection.maxDatagramSize)
      if bytes.length > receivedLen then return
      sendTo world bytes peer

/-- A hello has to bring a cookie only where the endpoint asks for one. -/
def cookieHolds (peer : SocketAddr) (id : Nat) (hello : ClientHello) : LoopM Bool := do
  if (← get).config.retry.enabled then cookieIsValid hmac world peer id hello
  else return true

/-- The connection `handle_datagram` makes: whether there is one. -/
def openServer (peer : SocketAddr) (id : Nat) : LoopM Bool := do
  let s ← get
  if s.connections.size ≥ s.config.maxConnections then return false
  match Connection.newServer suite id s.config.connection (← ask world.entropy) with
  | .error _ => return false
  | .ok core => do
      putRuntime id {
        core := core
        path := ⟨peer⟩
        isServer := true
        lastAdvancedAt := ← ask world.instant
        accepted := false }
      return true

/-- What `handle_datagram` does where no connection has the id: whether there is
one afterwards. -/
def handleUnknown (bytes : Bytes) (peer : SocketAddr) (id : Nat) : LoopM Bool := do
  match decodePacket bytes (← get).config.connection.maxDatagramSize with
  | .error _ => return false
  | .ok packet =>
      if packet.packetType ≠ .initial then return false
      match packet.frames with
      | [.clientHello hello] => do
          if ← cookieHolds hmac world peer id hello then openServer suite world peer id
          else
            sendRetry hmac world peer id hello bytes.length
            return false
      | _ => return false

/-- The errors of `on_datagram_bytes` that leave the connection open. -/
def tolerated : CoreError → Bool
  | .protocol _ => true
  | .connectionIdMismatch => true
  | _ => false

/-- The core after `on_datagram_bytes`, closed where that is called for. -/
def received (bytes : Bytes) (core : Connection) : Connection :=
  match call (onDatagramBytes suite bytes) core with
  | (.ok (), core) => core
  | (.error error, core) =>
      if tolerated error then core
      else after (Core.close 4 (ascii "invalid datagram")) core

/-- The end of `handle_datagram`. -/
def deliver (bytes : Bytes) (id : Nat) : LoopM Unit := do
  withConnection id (return) fun runtime =>
    putRuntime id { runtime with core := received suite bytes runtime.core }
  processOutputs suite world id

/-- `EventLoop::handle_datagram`. -/
def handleDatagram (bytes : Bytes) (peer : SocketAddr) : LoopM Unit := do
  let s ← get
  if bytes.length > s.config.connection.maxDatagramSize then return
  match peekConnectionId bytes s.config.connection.maxDatagramSize with
  | .error _ => return
  | .ok id =>
      match s.connections[id]? with
      | some runtime => if runtime.path.peer = peer then deliver suite world bytes id
      | none => if ← handleUnknown suite hmac world bytes peer id then deliver suite world bytes id

/-! ## Turns -/

/-- The loop of `EventLoop::advance_time`. -/
def advanceEach (now : Nat) : List Nat → LoopM Unit
  | [] => return
  | id :: rest => do
      withConnection id (return) fun runtime => do
        let (result, core) := call (Core.advanceTime (now - runtime.lastAdvancedAt)) runtime.core
        putRuntime id { runtime with core := core, lastAdvancedAt := now }
        match result with
        | .error _ => removeRuntime world id 4
        | .ok () => processOutputs suite world id
      advanceEach now rest

/-- `EventLoop::advance_time`. -/
def advanceTime : LoopM Unit := do
  let now ← ask world.instant
  let s ← get
  advanceEach suite world now (← ask fun n => world.order n s.connections.keys)

/-- The body of the fold of `EventLoop::next_deadline`. -/
def earlier (earliest : Option Nat) (runtime : Runtime) : Except EndpointError (Option Nat) :=
  match runtime.core.nextDeadline with
  | .error error => .error (.core error)
  | .ok delay =>
      .ok (match earliest, delay.map (runtime.lastAdvancedAt + ·) with
        | none, value => value
        | value, none => value
        | some left, some right => some (min left right))

/-- `EventLoop::next_deadline`. -/
def EventLoop.nextDeadline (s : EventLoop) : Except EndpointError (Option Nat) :=
  s.connections.values.foldlM earlier none

/-- What `select!` in `EventLoop::run` can come back with. -/
inductive Event where
  | received (datagram : Bytes) (peer : SocketAddr)
  | receiveFailed
  | command (command : Command)
  | commandsClosed
  | slept

/-- One turn of the loop of `EventLoop::run`: whether it goes on. The buffer has
room for one byte more than a datagram may have. -/
def turn (event : Event) : LoopM Bool := do
  advanceTime suite world
  let _ ← ofExcept id (← get).nextDeadline
  match event with
  | .received datagram peer => do
      let limit := (← get).config.connection.maxDatagramSize
      handleDatagram suite hmac world (datagram.take (limit + 1)) peer
      return true
  | .receiveFailed => return false
  | .command .shutdown => return false
  | .command command => do
      modify fun s => { s with asked := s.asked ++ [command] }
      handleCommand suite world command
      return true
  | .commandsClosed => return false
  | .slept => return true

/-- A turn, and the end of the loop where there is not another one. -/
def EventLoop.step (s : EventLoop) (event : Event) : EventLoop :=
  if s.stopped then s
  else
    match turn suite hmac world event s with
    | .ok true s => s
    | .ok false s => { after (closeAll world) s with stopped := true }
    | .error _ s => { after (closeAll world) s with stopped := true }

/-- The loop after a list of events. -/
def EventLoop.run (s : EventLoop) (events : List Event) : EventLoop :=
  events.foldl (EventLoop.step suite hmac world) s

end

end DartUdp.Endpoint
