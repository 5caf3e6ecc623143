import DartUdp.Core.Run

/-!
# Two connections and a network

A client and a server, and every packet either of them ever sent. The network
may lose, duplicate, delay and reorder: at any time it hands any packet sent so
far to the other end, and it may never hand over one of them. The endpoint a
server belongs to may answer with a Retry of its own at any time. The trace
keeps what each end was asked to do and what it answered, an error as `none`.
-/

namespace DartUdp.Core

open DartUdp.Lib DartUdp.Udp

/-- The packets among the outputs. -/
def packetsOf : List CoreOutput → List Packet :=
  List.filterMap fun
    | .send packet => some packet
    | _ => none

/-- What is done at an end of the connection. -/
inductive Call where
  | openStream
  | writeStream (streamId : Nat) (data : Bytes) (fin : Bool)
  | readStream (streamId maxLen : Nat)
  | advanceTime (elapsed : Nat)
  | close (errorCode : Nat) (reason : Bytes)
  | receive (packet : Packet)
deriving DecidableEq

def Call.op : Call → Op
  | .openStream => .openStream
  | .writeStream streamId data fin => .writeStream streamId data fin
  | .readStream streamId maxLen => .readStream streamId maxLen
  | .advanceTime elapsed => .advanceTime elapsed
  | .close errorCode reason => .close errorCode reason
  | .receive packet => .onDatagram packet

/-- One step of the system: a call of the application or of the clock at one
end, the arrival there of the packet the other end sent as its `index`-th, or
that of a Retry. -/
inductive Action where
  | openStream
  | writeStream (streamId : Nat) (data : Bytes) (fin : Bool)
  | readStream (streamId maxLen : Nat)
  | advanceTime (elapsed : Nat)
  | close (errorCode : Nat) (reason : Bytes)
  | deliver (index : Nat)
  | retry (cookie : Bytes)
deriving DecidableEq

structure Event where
  role : ConnectionRole
  call : Call
  reply : Option Reply
deriving DecidableEq

/-- Both ends, what each has sent, and the trace. -/
structure Net where
  conn : ConnectionRole → Connection
  sent : ConnectionRole → List Packet := fun _ => []
  trace : List Event := []

/-- The packet of the endpoint's `send_retry`, which is outside the numbers of
the connection. -/
def retryPacket (connectionId : Nat) (cookie : Bytes) : Packet :=
  ⟨.retry, .empty, connectionId, u64Max, [.retry cookie]⟩

/-- The call an action makes; a delivery finds its packet among those sent. -/
def Net.call (net : Net) (role : ConnectionRole) : Action → Option Call
  | .openStream => some .openStream
  | .writeStream streamId data fin => some (.writeStream streamId data fin)
  | .readStream streamId maxLen => some (.readStream streamId maxLen)
  | .advanceTime elapsed => some (.advanceTime elapsed)
  | .close errorCode reason => some (.close errorCode reason)
  | .deliver index => (net.sent role.peer)[index]?.map .receive
  | .retry cookie => some (.receive (retryPacket (net.conn role).id cookie))

variable (suite : Suite)

/-- An end answers a call, and its outputs are drained. -/
def Net.perform (net : Net) (role : ConnectionRole) (call : Call) : Net where
  conn := Function.update net.conn role
    { after (Core.perform suite call.op) (net.conn role) with output := [] }
  sent := Function.update net.sent role
    (net.sent role ++ packetsOf (after (Core.perform suite call.op) (net.conn role)).output)
  trace := net.trace ++ [⟨role, call, answer (Core.perform suite call.op) (net.conn role)⟩]

@[simp] theorem Net.perform_conn_self (net : Net) (role : ConnectionRole) (call : Call) :
    (net.perform suite role call).conn role =
      { after (Core.perform suite call.op) (net.conn role) with output := [] } :=
  Function.update_self ..

@[simp] theorem Net.perform_conn_of_ne (net : Net) {role other : ConnectionRole} (call : Call)
    (h : other ≠ role) : (net.perform suite role call).conn other = net.conn other :=
  Function.update_of_ne h ..

@[simp] theorem Net.perform_sent_self (net : Net) (role : ConnectionRole) (call : Call) :
    (net.perform suite role call).sent role =
      net.sent role ++ packetsOf (after (Core.perform suite call.op) (net.conn role)).output :=
  Function.update_self ..

@[simp] theorem Net.perform_sent_of_ne (net : Net) {role other : ConnectionRole} (call : Call)
    (h : other ≠ role) : (net.perform suite role call).sent other = net.sent other :=
  Function.update_of_ne h ..

def Net.step (net : Net) (action : ConnectionRole × Action) : Net :=
  match net.call action.1 action.2 with
  | some call => net.perform suite action.1 call
  | none => net

/-- The system after a list of steps. -/
def Net.run (net : Net) (actions : List (ConnectionRole × Action)) : Net :=
  actions.foldl (Net.step suite) net

/-- A packet that can arrive: one the other end sent, or a Retry. -/
def Net.CanArrive (net : Net) (role : ConnectionRole) (packet : Packet) : Prop :=
  packet ∈ net.sent role.peer ∨ ∃ cookie, packet = retryPacket (net.conn role).id cookie

/-- What every call at either end preserves holds after every run. -/
theorem Net.run_induction {suite : Suite} {P : Net → Prop} {net : Net} (h : P net)
    (hstep : ∀ net role call, P net → (∀ packet, call = .receive packet →
      net.CanArrive role packet) → P (net.perform suite role call))
    (actions : List (ConnectionRole × Action)) : P (net.run suite actions) := by
  induction actions generalizing net with
  | nil => exact h
  | cons action actions ih =>
      refine ih ?_
      obtain ⟨role, action⟩ := action
      unfold Net.step
      split
      · next call hcall =>
          refine hstep net role call h fun packet heq => ?_
          subst heq
          cases action with
          | deliver index =>
              obtain ⟨p, hp, heq⟩ := Option.map_eq_some_iff.1 hcall
              cases heq
              exact .inl (List.mem_of_getElem? hp)
          | retry cookie =>
              cases hcall
              exact .inr ⟨cookie, rfl⟩
          | _ => cases hcall
      · exact h

/-- Two fresh connections, with what the client sent when it was made. -/
def Net.start (client server : Connection) : Net where
  conn
    | .client => { client with output := [] }
    | .server => { server with output := [] }
  sent
    | .client => packetsOf client.output
    | .server => packetsOf server.output

/-! ## What the trace says of a stream -/

/-- The bytes a `write_stream` that answered put on the stream. -/
def Event.accepted (role : ConnectionRole) (streamId : Nat) (e : Event) : Bytes :=
  match e with
  | ⟨r, .writeStream id data _, some _⟩ => if r = role ∧ id = streamId then data else []
  | _ => []

/-- The bytes a `read_stream` answered. -/
def Event.returned (role : ConnectionRole) (streamId : Nat) (e : Event) : Bytes :=
  match e with
  | ⟨r, .readStream id _, some (.read result)⟩ =>
      if r = role ∧ id = streamId then result.data else []
  | _ => []

/-- A `write_stream` with FIN that answered. -/
def Event.finishes (role : ConnectionRole) (streamId : Nat) (e : Event) : Bool :=
  match e with
  | ⟨r, .writeStream id _ fin, some _⟩ => r == role && id == streamId && fin
  | _ => false

/-- The concatenation of the bytes accepted at an end. -/
def accepted (trace : List Event) (role : ConnectionRole) (streamId : Nat) : Bytes :=
  trace.flatMap (Event.accepted role streamId)

/-- The concatenation of the bytes returned at an end. -/
def returned (trace : List Event) (role : ConnectionRole) (streamId : Nat) : Bytes :=
  trace.flatMap (Event.returned role streamId)

/-- FIN has been accepted at an end. -/
def finished (trace : List Event) (role : ConnectionRole) (streamId : Nat) : Bool :=
  trace.any (Event.finishes role streamId)

/-! ## One exchange

The primitives on the inputs of one exchange, computed with the real ones: a
client with secret `1…1` and nonce `3…3`, a server with secret `2…2` and nonce
`4…4`, and a second client key with secret `5…5`, on connection 7. -/

def sampleSuite : Suite where
  publicKey secret := beBytes 32 (match secret.head? with
    | some 1 => 0xa4e09292b651c278b9772c569f5fa9bb13d906b46ab68c9df9dc2b4409f8a209
    | some 2 => 0xce8d3ad1ccb633ec7b70c17814a5c76ecd029685050d344745ba05870e587d59
    | _ => 0x50a61409b1ddd0325e9b16b700e719e9772c07000b1bd7786e907c653d20495d)
  diffieHellman secret publicKey := beBytes 32
    (if (secret.head? ≠ some 1 && secret.head? ≠ some 2) || publicKey.head? = some 0x50 then
      0xeae6c8a9cecac8ef9a0ad59794fef9d4fe8ef407e7ee7eb4856ca6f88a96db4b
    else 0x2ed76ab549b1e73c031eb49c9448f0798aea81b698279a0c3dc3e49fbfc4b953)
  sha256 message := beBytes 32 (if message[79]? = some 0x50 then
      0x5ef3f5844cb5e6c91a8b63d078464b4f3cc1d109989103900f4fed7a6a6e4701
    else 0xdca90921c648de87a7487bb0a6b01e14cd4742fa260783470c8cd4df3df2ba99)
  hkdf salt _ info length := some (beBytes length (
    let other := salt.head? = some 0x5e
    if info = ascii "udp-protocol/v2/client-to-server" then
      if other then 0x78ed71564afeb029444f903c7f7d370e307cd87b686e791e09e16d281343b32d
      else 0x79289ef04bb06d28a048df7a6638c6dbf3a475d405ff08824cd831b2f160f387
    else if info = ascii "udp-protocol/v2/server-to-client" then
      if other then 0xaf405c3157ccbb2118d431e2e48acb01d577d935c88b8a207d330bef4fecd18d
      else 0x0586100ed93bd044300decfab816765b0e4bb91199a6c9693038c54c89e469ba
    else if info = ascii "udp-protocol/v2/finished" then
      if other then 0x7e2b4c37c778eee47b92886b0378805707d3382ae176bcd58f3a5d12bfd31190
      else 0x75beb77b53fe8860dd77845d613889cb6c11c8789011febee2416520ea672061
    else if other then 0x2f0b0107 else 0xe5caa98d))
  hmac key message := beBytes 32 (match key.head? == some 0x7e, message[24]? == some 0 with
    | false, true => 0xb8d74664f4444cad21c490b0c3682a8bf5daa163dad6471029d8f5f1b319ac87
    | false, false => 0x773788e51b7eea251c4f97da6ee939483cd66c944838c69e7c49539ee9159a4c
    | true, true => 0xddd9c0bf0808732e2a4a9d954d19f5ccdc71b817ea51e943bc0af9138f634552
    | true, false => 0x0da84979ac8b17bb1bbc059e47bf9b8f698622872efe79516b8843dc6099415a)
  encrypt _ _ _ _ := none
  decrypt _ _ _ _ _ := none
  encrypt_length := fun h => by cases h

/-- What the two of them are built with. -/
def sampleEntropy : ConnectionRole → Entropy
  | .client => ⟨some (List.replicate 16 3), some (List.replicate 32 1), .byAge⟩
  | .server => ⟨some (List.replicate 16 4), some (List.replicate 32 2), .byAge⟩

/-- One of the two as it is made. -/
def sampleConnection (role : ConnectionRole) (config : ConnectionConfig) :
    Except CoreError Connection :=
  match role with
  | .client => Connection.newClient sampleSuite 7 config (sampleEntropy role)
  | .server => Connection.newServer sampleSuite 7 config (sampleEntropy role)

theorem sampleConnection_fresh {role : ConnectionRole} {config : ConnectionConfig} {c : Connection}
    (h : sampleConnection role config = .ok c) : Fresh sampleSuite role config c := by
  cases role with
  | client => exact ⟨7, sampleEntropy .client, h⟩
  | server => exact ⟨7, sampleEntropy .server, h⟩

/-- The two of them after some steps. -/
def sampleRun (client server : ConnectionConfig) (actions : List (ConnectionRole × Action)) :
    Except CoreError Net := do
  let c ← sampleConnection .client client
  let s ← sampleConnection .server server
  return (Net.start c s).run sampleSuite actions

/-- The steps of a handshake in which nothing is lost. -/
def sampleHandshake : List (ConnectionRole × Action) :=
  [(.server, .deliver 0), (.client, .deliver 0), (.server, .deliver 1)]

theorem sampleRun_fresh {client server : ConnectionConfig}
    {actions : List (ConnectionRole × Action)} {net : Net}
    (h : sampleRun client server actions = .ok net) :
    ∃ c s, Fresh sampleSuite .client client c ∧ Fresh sampleSuite .server server s ∧
      net = (Net.start c s).run sampleSuite actions := by
  unfold sampleRun at h
  cases hc : sampleConnection .client client with
  | error e =>
      rw [hc] at h
      cases h
  | ok c =>
      cases hs : sampleConnection .server server with
      | error e =>
          rw [hc, hs] at h
          cases h
      | ok s =>
          rw [hc, hs] at h
          cases h
          exact ⟨c, s, sampleConnection_fresh hc, sampleConnection_fresh hs, rfl⟩

/-- What the client sends to get through the handshake, open a stream and write
one byte and FIN on it. -/
def samplePackets : List Packet :=
  [⟨.initial, ⟨ackElicitingFlag⟩, 7, 0,
      [.clientHello ⟨List.replicate 16 3, sampleSuite.publicKey (List.replicate 32 1), 1200, 64,
        4 * 1024 * 1024, 1024 * 1024, []⟩]⟩,
    ⟨.handshake, ⟨ackElicitingFlag⟩, 7, 1,
      [.handshakeAck ⟨[], beBytes 16 0xb8d74664f4444cad21c490b0c3682a8b⟩]⟩,
    ⟨.data, ⟨ackElicitingFlag⟩, 7, 2, [.streamOpen ⟨0, 1024 * 1024, true⟩]⟩,
    ⟨.data, ⟨ackElicitingFlag⟩, 7, 3, [.streamData ⟨0, 0, true, [97]⟩]⟩]

/-- A check of what a sample run gives. -/
def checks {ε α : Type} (r : Except ε α) (p : α → Bool) : Bool :=
  match r with
  | .ok a => p a
  | .error _ => false

theorem of_checks {ε α : Type} {r : Except ε α} {p : α → Bool} (h : checks r p = true) :
    ∃ a, r = .ok a ∧ p a = true := by
  cases r with
  | ok a => exact ⟨a, rfl, h⟩
  | error e => cases h

end DartUdp.Core
