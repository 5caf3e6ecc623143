import DartUdp.Proofs.ConnKeys

/-!
# A hello that is rejected

A client takes over what a `ServerHello` says before it has checked who sent it.
When a check fails afterwards the error is returned and what was taken over
stays. So a rejected hello leaves the negotiated terms alone exactly if it was
turned away at the door or had nothing to say.

The module is for `rejected_serverHello_iff`. `receiveServerHello_rejects` says what
a rejection leaves behind, and `terms_meets_iff` when that is what was there.
-/

namespace DartUdp.Core

open DartUdp.Lib DartUdp.Udp

variable {suite : Suite} {c c' : Connection}

/-- What the hellos settle for a connection: the datagram size, what the peer
allows, its cookie and the keys. -/
structure Terms where
  maxDatagramSize : Nat
  peerMaxStreams : Nat
  peerInitialStreamWindow : Nat
  connectionSend : SendFlowControl
  peerCookie : Bytes
  sessionKeys : Option SessionKeys

def Connection.terms (c : Connection) : Terms where
  maxDatagramSize := c.config.maxDatagramSize
  peerMaxStreams := c.handshake.peerMaxStreams
  peerInitialStreamWindow := c.handshake.peerInitialStreamWindow
  connectionSend := c.connectionSend
  peerCookie := c.handshake.peerCookie
  sessionKeys := c.handshake.sessionKeys

/-- The hello says nothing the client does not go by already. -/
structure SaysNothingNew (hello : ServerHello) (c : Connection) : Prop where
  cookie : hello.cookie = c.handshake.peerCookie
  streams : c.handshake.peerMaxStreams ≤ hello.maxStreams
  window : hello.initialStreamWindow = c.handshake.peerInitialStreamWindow
  size : c.config.maxDatagramSize ≤ hello.maxDatagramSize

instance (hello : ServerHello) (c : Connection) : Decidable (SaysNothingNew hello c) :=
  decidable_of_iff (hello.cookie = c.handshake.peerCookie ∧
      c.handshake.peerMaxStreams ≤ hello.maxStreams ∧
      hello.initialStreamWindow = c.handshake.peerInitialStreamWindow ∧
      c.config.maxDatagramSize ≤ hello.maxDatagramSize)
    ⟨fun ⟨h₁, h₂, h₃, h₄⟩ => ⟨h₁, h₂, h₃, h₄⟩, fun h => ⟨h.cookie, h.streams, h.window, h.size⟩⟩

/-- The client with what the hello says taken over. -/
def Connection.meets (c : Connection) (hello : ServerHello) : Connection :=
  { c with
    handshake := c.handshake.meetServer hello
    config := c.config.shrink hello.maxDatagramSize }

theorem terms_meets_iff {hello : ServerHello} :
    (c.meets hello).terms = c.terms ↔ SaysNothingNew hello c := by
  simp only [Connection.terms, Connection.meets, HandshakeState.meetServer, ConnectionConfig.shrink,
    Terms.mk.injEq, and_true, true_and, min_eq_left_iff]
  exact ⟨fun ⟨hsize, hstreams, hwindow, hcookie⟩ => ⟨hcookie, hstreams, hwindow, hsize⟩,
    fun h => ⟨h.size, h.streams, h.window, h.cookie⟩⟩

/-- A `ServerHello` is rejected at the door, or after it was taken over. -/
theorem receiveServerHello_rejects (hrole : c.role = .client) (hst : c.state = .handshaking)
    (packetType : PacketType) (hello : ServerHello) :
    Ends (receiveServerHello suite packetType hello) c (fun _ _ => packetType = .handshake)
      fun _ c' => packetType ≠ .handshake ∧ c' = c ∨
        packetType = .handshake ∧ c' = c.meets hello := by
  simp only [receiveServerHello, ends_steps, ends_modifyHandshake]
  refine ⟨fun hdoor => .inl ⟨fun htype => ?_, trivial⟩, fun hdoor => ?_⟩
  · rw [hrole, hst, htype] at hdoor
    exact Bool.false_ne_true hdoor
  have htype : packetType = .handshake := by
    simp only [Bool.or_eq_true, decide_eq_true_eq, not_or, not_not] at hdoor
    exact hdoor.1.2
  split
  · exact .inr ⟨htype, rfl⟩
  · simp only [ends_bind, ends_ofExcept, ends_modifyHandshake, ends_pure]
    exact ⟨fun _ _ => ⟨fun _ _ => ⟨fun _ _ => htype, fun _ _ => .inr ⟨htype, rfl⟩⟩,
      fun _ _ => .inr ⟨htype, rfl⟩⟩, fun _ _ => .inr ⟨htype, rfl⟩⟩

/-- **A rejected hello.** It leaves the terms of a client that waits for a
`ServerHello` as they were exactly if it came in a packet of another type, or
says nothing new. -/
theorem rejected_serverHello_iff (suite : Suite) {packetType : PacketType} {hello : ServerHello}
    {e : CoreError} (hrole : c.role = .client) (hst : c.state = .handshaking)
    (hrun : receiveServerHello suite packetType hello c = .error e c') :
    c'.terms = c.terms ↔ packetType ≠ .handshake ∨ SaysNothingNew hello c := by
  rcases (receiveServerHello_rejects hrole hst packetType hello).error hrun with
    ⟨htype, rfl⟩ | ⟨htype, rfl⟩
  · exact iff_of_true rfl (.inl htype)
  · rw [terms_meets_iff]
    exact ⟨.inr, fun h => h.resolve_left (not_not.2 htype)⟩

/-- The answer of the server under a wrong tag. -/
def untaggedServerHello : ServerHello := { sampleServerHello with serverFinished := [] }

/-- The altered answer under a wrong tag. -/
def forgedServerHello : ServerHello := { alteredServerHello with serverFinished := [] }

theorem rejected_serverHello_iff_sample : ∃ c c' e, Fresh sampleSuite .client {} c ∧
    receiveServerHello sampleSuite .handshake untaggedServerHello c = .error e c' ∧
    c'.terms = c.terms := by
  obtain ⟨c, hc, hp⟩ := of_checks (r := sampleConnection .client {})
    (p := fun c => c.role == .client && c.state == .handshaking &&
      SaysNothingNew untaggedServerHello c &&
      (answer (receiveServerHello sampleSuite .handshake untaggedServerHello) c).isNone)
    (by decide +kernel)
  simp only [Bool.and_eq_true, beq_iff_eq, decide_eq_true_eq] at hp
  obtain ⟨⟨⟨hrole, hst⟩, hnew⟩, hfails⟩ := hp
  cases hrun : receiveServerHello sampleSuite .handshake untaggedServerHello c with
  | ok r c' =>
      rw [answer, hrun] at hfails
      cases hfails
  | error e c' =>
      exact ⟨c, c', e, sampleConnection_fresh hc, hrun,
        (rejected_serverHello_iff sampleSuite hrole hst hrun).2 (.inr hnew)⟩

/-- **A forged hello that is rejected and stays.** A client waits for its
`ServerHello`. One with a wrong tag is rejected; the genuine one that comes next
is accepted, and the client goes by the datagram size and the stream limit of
the forged one. -/
theorem forged_hello_stays : ∃ c, Fresh sampleSuite .client {} c ∧ c.state = .handshaking ∧
    failure (receiveServerHello sampleSuite .handshake forgedServerHello) c =
      some (.crypto .authenticationFailed) ∧
    ∃ c', after (receiveServerHello sampleSuite .handshake forgedServerHello) c = c' ∧
      c.config.maxDatagramSize = 1200 ∧ c'.config.maxDatagramSize = 100 ∧
      ∃ c'', after (processFrame sampleSuite .handshake (.serverHello sampleServerHello)) c' = c'' ∧
        c''.state = .established ∧ c''.config.maxDatagramSize = 100 ∧
        c''.handshake.peerMaxStreams = 1 := by
  obtain ⟨c, hc, hp⟩ := of_checks (r := sampleConnection .client {})
    (p := fun c =>
      let c' := after (receiveServerHello sampleSuite .handshake forgedServerHello) c
      let c'' := after (processFrame sampleSuite .handshake (.serverHello sampleServerHello)) c'
      c.state == .handshaking &&
      failure (receiveServerHello sampleSuite .handshake forgedServerHello) c ==
        some (.crypto .authenticationFailed) &&
      c.config.maxDatagramSize == 1200 && c'.config.maxDatagramSize == 100 &&
      c''.state == .established && c''.config.maxDatagramSize == 100 &&
      c''.handshake.peerMaxStreams == 1)
    (by decide +kernel)
  simp only [Bool.and_eq_true, beq_iff_eq] at hp
  obtain ⟨⟨⟨⟨⟨⟨hst, hfails⟩, hbefore⟩, hafter⟩, hopen⟩, hsize⟩, hstreams⟩ := hp
  exact ⟨c, sampleConnection_fresh hc, hst, hfails, _, rfl, hbefore, hafter, _, rfl, hopen, hsize,
    hstreams⟩

end DartUdp.Core
