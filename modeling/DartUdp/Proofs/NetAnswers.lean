import DartUdp.Proofs.NetHandshake

/-!
# Hellos that come again

A server repeats its `ServerHello` until it is established. Two things keep the
repetition from being of use. An established client refuses every `ServerHello`,
so a `HandshakeAck` that was lost is never made again. And a server takes only a
`HandshakeAck` with the cookie of the last `ClientHello` it has heard, so one
that answers an earlier `ServerHello` can come too late.

The module is for `half_open_never_recovers` and `handshakeAck_establishes_iff`.
`Calm` names the calls that leave the state alone, `ends_onDatagram` reduces a
packet to its one frame, and `processServerHello_refused` and
`processHandshakeAck_ends` are these frames.
-/

namespace DartUdp.Core

open DartUdp.Lib DartUdp.Udp

variable {suite : Suite} {c : Connection} {α β : Type}

/-! ## What leaves the state of a connection alone -/

/-- The program does not touch the state of the connection. -/
abbrev Calm (m : ConnM α) (c : Connection) : Prop :=
  Ends m c (fun _ c' => c'.state = c.state) fun _ c' => c'.state = c.state

theorem Calm.bind {m : ConnM α} {f : α → ConnM β} (h : Calm m c)
    (hf : ∀ a c', c'.state = c.state → Calm (f a) c') : Calm (m >>= f) c := by
  rw [Calm, ends_bind]
  refine Ends.mono h (fun a c' hc' => ?_) fun _ _ hc' => hc'
  exact Ends.mono (hf a c' hc') (fun _ _ h' => h'.trans hc') fun _ _ h' => h'.trans hc'

theorem Calm.ite {b : Prop} [Decidable b] {m m' : ConnM α} (h : Calm m c) (h' : Calm m' c) :
    Calm (if b then m else m') c := by
  split
  · exact h
  · exact h'

theorem calm_onTimers (m : TimerM α) : Calm (onTimers m) c :=
  ends_onTimers (fun _ _ => rfl) fun _ _ => rfl

theorem calm_onStreams (m : StreamsM α) : Calm (onStreams m) c := by
  rw [Calm, onStreams, ends_zoom]
  exact .of_forall (fun _ _ => rfl) fun _ _ => rfl

theorem calm_ofExcept {ε : Type} (wrap : ε → CoreError) (r : Except ε α) :
    Calm (ofExcept wrap r) c :=
  ends_ofExcept.2 ⟨fun _ _ => rfl, fun _ _ => rfl⟩

theorem putBack_calm (f : Frame) (n : Nat) : Calm (putBack f n) c := by
  unfold putBack
  split
  · exact calm_onStreams _
  · exact rfl

theorem requeueCandidate_calm (candidate : Candidate) : Calm (requeueCandidate candidate) c := by
  unfold requeueCandidate
  split
  · exact rfl
  · exact putBack_calm _ _

theorem takeCandidate_calm : Calm takeCandidate c := by
  simp only [takeCandidate, takeDataCandidate, Calm, ends_steps, ends_ofExcept]
  refine ⟨fun _ => ⟨fun _ _ => trivial, fun _ _ => trivial⟩, fun _ => ?_⟩
  split
  · exact rfl
  · split
    · exact rfl
    · exact rfl

theorem flowBlocks_calm (candidate : Candidate) : Calm (flowBlocks candidate) c := by
  unfold flowBlocks
  split
  · simp only [Calm, ends_steps]
    exact ⟨fun _ => trivial, fun _ => ⟨fun _ => trivial, fun _ => trivial⟩⟩
  · exact rfl

theorem settle_calm (n len : Nat) (candidate : Candidate) : Calm (settle n len candidate) c := by
  unfold settle
  split
  · exact rfl
  · refine Calm.ite (Calm.bind ?_ fun _ _ _ => rfl) rfl
    unfold recordSent
    split
    · exact rfl
    · exact rfl
    · exact rfl
    · simp only [Calm, ends_bind, ends_get, ends_modifyTransport]
      exact ends_onTimers (fun _ _ => rfl) fun _ _ => rfl

theorem flushOnce_calm : Calm flushOnce c := by
  unfold flushOnce
  refine takeCandidate_calm.bind fun candidate c₁ _ => ?_
  split
  · exact rfl
  · rw [Calm, ends_bind, ends_get]
    refine Calm.bind (calm_ofExcept _ _) fun len c₂ _ => Calm.ite ?_ ?_
    · exact Calm.bind (requeueCandidate_calm _) fun _ _ _ => rfl
    · split
      · exact rfl
      · refine Calm.bind (show Calm (modifyTransport _) c₂ from rfl) fun _ c₃ _ =>
          Calm.bind (flowBlocks_calm _) fun blocked c₄ _ => Calm.ite ?_ ?_
        · exact Calm.bind (requeueCandidate_calm _) fun _ _ _ => rfl
        · exact Calm.bind (show Calm (modify _) c₄ from rfl) fun _ _ _ =>
            Calm.bind (settle_calm _ _ _) fun _ _ _ => rfl

theorem flushLoop_calm (n : Nat) : Calm (flushLoop n) c := by
  induction n generalizing c with
  | zero => exact rfl
  | succ n ih => exact flushOnce_calm.bind fun _ _ _ => Calm.ite ih rfl

theorem flush_calm : Calm flush c := flushLoop_calm _

theorem scheduleAck_calm : Calm scheduleAck c := by
  simp only [scheduleAck, Calm, ends_bind, ends_modifyTransport, ends_get, ends_ite]
  refine ⟨fun _ => trivial, fun _ => ⟨fun _ => ?_, fun _ => ?_⟩⟩
  · exact calm_onTimers _
  · exact rfl

/-! ## A packet with one frame -/

/-- The connection as `on_datagram` hands the frames of a new packet to it. -/
def Connection.opened (c : Connection) (timers : TimerState) (packet : Packet) : Connection :=
  { c with
    timers := timers
    transport :=
      { c.transport with
        received := (c.transport.received.record packet.packetNumber c.now).2 } }

/-- What `on_datagram` does once the frames are processed. -/
def acknowledge (packet : Packet) : ConnM Unit := do
  if packet.frames.any Frame.isAckEliciting then scheduleAck
  flush

theorem acknowledge_calm (p : Packet) : Calm (acknowledge p) c := by
  unfold acknowledge
  split
  · exact scheduleAck_calm.bind fun _ _ _ => flush_calm
  · exact flush_calm

theorem recordReceived_new {p : Packet} (htype : p.packetType ≠ .retry)
    (hnew : c.transport.received.contains p.packetNumber = false) (t : TimerState) :
    Ends (recordReceived p) { c with timers := t }
      (fun isNew c' => isNew = true ∧ c' = c.opened t p) fun _ _ => False := by
  simp only [recordReceived, ends_steps, ends_modifyTransport]
  refine ⟨fun h => absurd h htype, fun _ => ⟨?_, rfl⟩⟩
  unfold ReceivedPackets.record
  rw [hnew]
  rfl

theorem ends_processFrames_one {packetType : PacketType} {f : Frame} {Q : Unit → Connection → Prop}
    {E : CoreError → Connection → Prop} (hack : f.isAck = false)
    (h : Ends (processFrame suite packetType f) c Q E) :
    Ends (processFrames suite packetType [f]) c Q E := by
  simp only [processFrames, hack, ends_steps]
  exact ⟨fun _ => h, fun h => absurd rfl h⟩

theorem ends_applyAcks_one {f : Frame} {Q : Unit → Connection → Prop}
    {E : CoreError → Connection → Prop} (hack : f.isAck = false) (h : Q () c) :
    Ends (applyAcks [f]) c Q E := by
  cases f with
  | ack a => cases hack
  | _ => exact h

/-- `on_datagram` on a new packet with one frame that is not an ACK. -/
theorem ends_onDatagram {p : Packet} {f : Frame} {Q : Unit → Connection → Prop}
    {E : CoreError → Connection → Prop} (hst : c.state ≠ .closed) (hid : p.connectionId = c.id)
    (htype : p.packetType ≠ .retry)
    (hnew : c.transport.received.contains p.packetNumber = false) (hframes : p.frames = [f])
    (hack : f.isAck = false)
    (hok : ∀ t, scheduleIdle c.config.idleTimeout c.timers = .ok () t →
      Ends (processFrame suite p.packetType f) (c.opened t p)
        (fun _ c' => Ends (acknowledge p) c' Q E) E)
    (herror : ∀ e t, scheduleIdle c.config.idleTimeout c.timers = .error e t →
      E e { c with timers := t }) :
    Ends (onDatagram suite p) c Q E := by
  simp only [onDatagram]
  rw [ends_bind, ends_get, ends_ite]
  refine ⟨fun h => absurd h hst, fun _ => ?_⟩
  rw [ends_ite]
  refine ⟨fun h => absurd hid h, fun _ => ?_⟩
  rw [ends_bind, onTimers, ends_zoom]
  have hidle : Ends (scheduleIdle c.config.idleTimeout) c.timers
      (fun _ t => scheduleIdle c.config.idleTimeout c.timers = .ok () t)
      fun e t => scheduleIdle c.config.idleTimeout c.timers = .error e t := by
    unfold Ends
    split
    · next h => exact h
    · next h => exact h
  refine hidle.mono (fun _ t ht => ?_) fun e t ht => herror e t ht
  rw [ends_bind]
  refine (recordReceived_new htype hnew t).mono (fun isNew c' h => ?_) fun _ _ h => h.elim
  obtain ⟨rfl, rfl⟩ := h
  rw [hframes, ends_bind]
  refine ends_applyAcks_one hack ?_
  rw [if_pos rfl, ends_bind]
  refine ends_processFrames_one hack ?_
  have hmain := hok t ht
  unfold acknowledge at hmain
  rw [hframes] at hmain
  exact hmain

/-! ## A `ServerHello` for an established client -/

/-- A system that two fresh connections can come to. -/
def Reachable (suite : Suite) (net : Net) : Prop :=
  ∃ clientConfig serverConfig client server actions,
    Fresh suite .client clientConfig client ∧ Fresh suite .server serverConfig server ∧
      net = (Net.start client server).run suite actions

/-- The client is established, and the server waits for its answer. -/
structure Net.HalfOpen (suite : Suite) (net : Net) : Prop where
  reachable : Reachable suite net
  client : (net.conn .client).state = .established
  server : (net.conn .server).state = .handshaking

/-- The hello of the server once more, under a number the client has not seen. -/
structure Net.Repeats (net : Net) (p : Packet) : Prop where
  packetType : p.packetType = .handshake
  id : p.connectionId = (net.conn .client).id
  hello : ∃ hello, (net.conn .server).handshake.frame = some (.serverHello hello) ∧
    p.frames = [.serverHello hello]
  new : (net.conn .client).transport.received.contains p.packetNumber = false

/-- The client takes the packet and answers with one that puts the server in
Established, with the keys of the client. -/
def Net.Recovers (suite : Suite) (net : Net) (p : Packet) : Prop :=
  (answer (onDatagram suite p) (net.conn .client)).isSome ∧
    ∃ reply ∈ packetsOf (after (onDatagram suite p) (net.conn .client)).output,
      (after (onDatagram suite reply) (net.conn .server)).state = .established ∧
        (after (onDatagram suite reply) (net.conn .server)).packetCrypto.map (·.keys) =
          (net.conn .client).packetCrypto.map (·.keys)

theorem processServerHello_refused {packetType : PacketType} {hello : ServerHello}
    (hst : c.state ≠ .handshaking) :
    Ends (processFrame suite packetType (.serverHello hello)) c (fun _ _ => False)
      fun _ _ => True := by
  show Ends (processServerHello suite packetType hello) c _ _
  simp only [processServerHello, receiveServerHello, ends_steps]
  refine ⟨fun _ => trivial, fun h => ?_⟩
  simp [hst] at h

/-- However the two came to be half open, the hello that the server repeats does
not help. -/
theorem half_open_never_recovers (suite : Suite) {net : Net} (hopen : net.HalfOpen suite)
    {p : Packet} (hp : net.Repeats p) : ¬ net.Recovers suite p := by
  obtain ⟨hello, _, hframes⟩ := hp.hello
  have hclosed : (net.conn .client).state ≠ .closed := by
    rw [hopen.client]
    exact nofun
  have htype : p.packetType ≠ .retry := by
    rw [hp.packetType]
    exact nofun
  have hrefused : Ends (onDatagram suite p) (net.conn .client) (fun _ _ => False)
      fun _ _ => True := by
    refine ends_onDatagram hclosed hp.id htype hp.new hframes rfl (fun t _ => ?_)
      fun _ _ _ => trivial
    refine Ends.mono (processServerHello_refused ?_) (fun _ _ h => h.elim) fun _ _ h => h
    show (net.conn .client).state ≠ .handshaking
    rw [hopen.client]
    exact nofun
  rintro ⟨hanswer, _⟩
  rw [hrefused.fails] at hanswer
  cases hanswer

/-- The `HandshakeAck` is lost, and the timer of the server, at ten milliseconds,
makes it repeat its hello. -/
def halfOpenRun : Except CoreError Net :=
  sampleRun {} { handshakeTimeout := 10000000 }
    [(.server, .deliver 0), (.client, .deliver 0), (.server, .advanceTime 10000000)]

theorem sampleRun_reachable {client server : ConnectionConfig}
    {actions : List (ConnectionRole × Action)} {net : Net}
    (h : sampleRun client server actions = .ok net) : Reachable sampleSuite net := by
  obtain ⟨c, s, hc, hs, rfl⟩ := sampleRun_fresh h
  exact ⟨client, server, c, s, actions, hc, hs, rfl⟩

/-- What the sample run is checked for. -/
def repeatsHello (net : Net) : Bool :=
  (net.conn .client).state == .established && (net.conn .server).state == .handshaking &&
    (net.sent .server)[1]?.any fun p =>
      p.packetType == .handshake && p.connectionId == (net.conn .client).id &&
        (net.conn .server).handshake.frame == some (.serverHello sampleServerHello) &&
        p.frames == [.serverHello sampleServerHello] &&
        !(net.conn .client).transport.received.contains p.packetNumber &&
        (answer (onDatagram sampleSuite p) (net.conn .client)).isNone

theorem repeatsHello_sound {net : Net} (hreach : Reachable sampleSuite net)
    (h : repeatsHello net = true) :
    net.HalfOpen sampleSuite ∧ ∃ p ∈ net.sent .server, net.Repeats p ∧
      answer (onDatagram sampleSuite p) (net.conn .client) = none := by
  simp only [repeatsHello, Bool.and_eq_true, beq_iff_eq, Option.any_eq_true, Bool.not_eq_true',
    Option.isNone_iff_eq_none] at h
  obtain ⟨⟨hclient, hserver⟩, p, hp, ⟨⟨⟨⟨htype, hid⟩, hstored⟩, hframes⟩, hnew⟩, hnone⟩ := h
  exact ⟨⟨hreach, hclient, hserver⟩, p, List.mem_of_getElem? hp,
    ⟨htype, hid, ⟨_, hstored, hframes⟩, hnew⟩, hnone⟩

theorem halfOpenRun_repeats : ∃ net : Net, net.HalfOpen sampleSuite ∧
    ∃ p ∈ net.sent .server, net.Repeats p ∧
      answer (onDatagram sampleSuite p) (net.conn .client) = none := by
  obtain ⟨net, hnet, hp⟩ := of_checks (r := halfOpenRun) (p := repeatsHello) (by decide +kernel)
  exact ⟨net, repeatsHello_sound (sampleRun_reachable hnet) hp⟩

theorem half_open_never_recovers_sample : ∃ (net : Net) (p : Packet),
    net.HalfOpen sampleSuite ∧ net.Repeats p ∧ ¬ net.Recovers sampleSuite p := by
  obtain ⟨net, hopen, p, _, hrepeats, _⟩ := halfOpenRun_repeats
  exact ⟨net, p, hopen, hrepeats, half_open_never_recovers sampleSuite hopen hrepeats⟩

/-- The hello that the server itself repeats is refused. -/
theorem repeated_serverHello_is_refused : ∃ (net : Net) (p : Packet),
    net.HalfOpen sampleSuite ∧ p ∈ net.sent .server ∧ net.Repeats p ∧
      ¬ net.Recovers sampleSuite p := by
  obtain ⟨net, hopen, p, hsent, hrepeats, hnone⟩ := halfOpenRun_repeats
  refine ⟨net, p, hopen, hsent, hrepeats, fun h => ?_⟩
  rw [Net.Recovers, hnone] at h
  cases h.1

/-! ## A `HandshakeAck` for a server that has heard another cookie -/

/-- `process_frame` on a `HandshakeAck` with the right tag. -/
theorem processHandshakeAck_ends {a : HandshakeAck} {keys : SessionKeys} {transcript : Bytes}
    (hrole : c.role = .server) (hst : c.state = .handshaking)
    (htranscript : c.handshake.transcriptHash = some transcript)
    (hkeys : c.handshake.sessionKeys = some keys)
    (htag : a.clientFinished = keys.finishedTag suite .client transcript) :
    Ends (processFrame suite .handshake (.handshakeAck a)) c
      (fun _ c' => a.cookie = c.handshake.peerCookie ∧ c'.state = .established)
      fun _ c' => a.cookie ≠ c.handshake.peerCookie ∧ c'.state = .handshaking := by
  show Ends (processHandshakeAck suite .handshake a) c _ _
  simp only [processHandshakeAck, receiveHandshakeAck, ends_steps, htranscript, hkeys]
  refine ⟨fun h => ?_, fun h => ?_⟩
  · simp [hrole, hst] at h
    exact ⟨h, hst⟩
  · simp [hrole, hst] at h
    simp only [ends_ofExcept, ends_modify]
    refine ⟨fun _ _ => ?_, fun e hver => ?_⟩
    · refine Ends.mono (activateCrypto_established hkeys) (fun _ c' hv => ?_)
        fun _ _ h => h.elim
      exact ⟨h, congrArg View.state hv⟩
    · cases hver.symm.trans (verifyFinished_ok_iff.2 htag)

/-- The idle timer, which every packet sets anew, can be set. -/
def Connection.CanIdle (c : Connection) : Prop :=
  (answer (scheduleIdle c.config.idleTimeout) c.timers).isSome

/-- A `HandshakeAck` of the client, when it first arrives, establishes a server
that waits for it exactly when it has the cookie of the last `ClientHello` the
server has heard. -/
theorem handshakeAck_establishes_iff (suite : Suite) (hdh : Suite.Commutes suite) {net : Net}
    (hreach : Reachable suite net) (hst : (net.conn .server).state = .handshaking) {p : Packet}
    {a : HandshakeAck} (hsent : p ∈ net.sent .client) (hframes : p.frames = [.handshakeAck a])
    (hnew : (net.conn .server).transport.received.contains p.packetNumber = false) :
    (after (onDatagram suite p) (net.conn .server)).state = .established ↔
      a.cookie = (net.conn .server).handshake.peerCookie ∧ (net.conn .server).CanIdle := by
  obtain ⟨clientConfig, serverConfig, client, server, actions, hclient, hserver, rfl⟩ := hreach
  obtain ⟨x, _, _, hkeeps⟩ := exchange_keeps hclient hserver actions
  generalize (Net.start client server).run suite actions = net at *
  obtain ⟨hpid, hsaid⟩ := hkeeps.sent .client p hsent
  have hack : .handshakeAck a ∈ p.frames := by
    rw [hframes]
    exact List.mem_singleton_self _
  obtain ⟨⟨_, keys, hshares, htag⟩, htyped⟩ := hsaid _ hack
  have hjoins := hkeeps.joins .server
  obtain ⟨keys', hkeys'⟩ := Option.isSome_iff_exists.1 (hjoins.shaken (.inr ⟨rfl, hst⟩))
  have hagreed := hjoins.agreed keys' hkeys'
  cases Exchange.shares_unique hdh hagreed.same hshares hagreed.shares
  have htranscript : x.transcript suite .client = x.transcript suite .server := by
    unfold Exchange.transcript
    rw [hagreed.same]
  rw [htranscript] at htag
  have htype : p.packetType = .handshake := htyped trivial .idle
  have hid : p.connectionId = (net.conn .server).id := by
    rw [hpid, show (net.conn .server).id = _ from hjoins.id]
    exact hagreed.same
  refine Ends.after (P := fun c' : Connection => c'.state = .established ↔
    a.cookie = (net.conn .server).handshake.peerCookie ∧ (net.conn .server).CanIdle) ?_
  refine ends_onDatagram (by rw [hst]; exact nofun) hid (by rw [htype]; exact nofun) hnew hframes
    rfl (fun t ht => ?_) fun e t ht => ?_
  · have hidle : (net.conn .server).CanIdle := by
      unfold Connection.CanIdle answer
      rw [ht]
      rfl
    rw [htype]
    refine (processHandshakeAck_ends (c := (net.conn .server).opened t p) hjoins.plays hst
      hagreed.transcript hkeys' htag).mono (fun _ c' h => ?_) fun _ c' h => ?_
    · exact Ends.mono (acknowledge_calm p)
        (fun _ c'' hc'' => ⟨fun _ => ⟨h.1, hidle⟩, fun _ => hc''.trans h.2⟩)
        fun _ c'' hc'' => ⟨fun _ => ⟨h.1, hidle⟩, fun _ => hc''.trans h.2⟩
    · refine ⟨fun hest => ?_, fun hcond => absurd hcond.1 h.1⟩
      rw [h.2] at hest
      cases hest
  · refine ⟨fun hest => ?_, fun hcond => ?_⟩
    · cases hst.symm.trans hest
    · have hidle := hcond.2
      unfold Connection.CanIdle answer at hidle
      rw [ht] at hidle
      cases hidle

/-- What a sample run is checked for: the server waits, the `HandshakeAck` is the
`index`-th packet of the client and new to the server, and it establishes the
server or not. -/
def answersWith (index : Nat) (cookie : Bytes) (establishes : Bool) (net : Net) : Bool :=
  (net.conn .server).state == .handshaking &&
    (net.sent .client)[index]?.any fun p =>
      p.frames == [.handshakeAck ⟨cookie, beBytes 16 0xb8d74664f4444cad21c490b0c3682a8b⟩] &&
        !(net.conn .server).transport.received.contains p.packetNumber &&
        ((after (onDatagram sampleSuite p) (net.conn .server)).state == .established) == establishes

theorem answersWith_sound {index : Nat} {cookie : Bytes} {establishes : Bool} {net : Net}
    (h : answersWith index cookie establishes net = true) :
    (net.conn .server).state = .handshaking ∧ ∃ p ∈ net.sent .client, ∃ a : HandshakeAck,
      a.cookie = cookie ∧ p.frames = [.handshakeAck a] ∧
        (net.conn .server).transport.received.contains p.packetNumber = false ∧
        ((after (onDatagram sampleSuite p) (net.conn .server)).state = .established ↔
          establishes = true) := by
  simp only [answersWith, Bool.and_eq_true, beq_iff_eq, Option.any_eq_true, Bool.not_eq_true'] at h
  obtain ⟨hst, p, hp, ⟨hframes, hnew⟩, hest⟩ := h
  refine ⟨hst, p, List.mem_of_getElem? hp, _, rfl, hframes, hnew, ?_⟩
  rw [← hest, beq_iff_eq]

theorem handshakeAck_establishes_iff_sample : ∃ (net : Net) (p : Packet) (a : HandshakeAck),
    Reachable sampleSuite net ∧ p ∈ net.sent .client ∧ p.frames = [.handshakeAck a] ∧
      a.cookie = (net.conn .server).handshake.peerCookie ∧ (net.conn .server).CanIdle := by
  obtain ⟨net, hnet, hp⟩ := of_checks
    (r := sampleRun {} {} [(.server, .deliver 0), (.client, .deliver 0)])
    (p := answersWith 1 [] true) (by decide +kernel)
  have hreach := sampleRun_reachable hnet
  obtain ⟨hst, p, hsent, a, _, hframes, hnew, hest⟩ := answersWith_sound hp
  exact ⟨net, p, a, hreach, hsent, hframes, (handshakeAck_establishes_iff sampleSuite
    sampleSuite_commutes hreach hst hsent hframes hnew).1 (hest.2 rfl)⟩

/-- The client is told to retry after its first `ClientHello` has reached the
server. The server hears the second one too, and then gets the answer to its
first `ServerHello`: it does not take it. -/
theorem earlier_answer_is_refused : ∃ (net : Net) (p : Packet) (a : HandshakeAck),
    Reachable sampleSuite net ∧ (net.conn .server).state = .handshaking ∧
      p ∈ net.sent .client ∧ p.frames = [.handshakeAck a] ∧
      (net.conn .server).transport.received.contains p.packetNumber = false ∧
      (after (onDatagram sampleSuite p) (net.conn .server)).state ≠ .established := by
  obtain ⟨net, hnet, hp⟩ := of_checks
    (r := sampleRun {} {} [(.server, .deliver 0), (.client, .retry [9]), (.server, .deliver 1),
      (.client, .deliver 0)])
    (p := answersWith 2 [] false) (by decide +kernel)
  obtain ⟨hst, p, hsent, a, _, hframes, hnew, hest⟩ := answersWith_sound hp
  exact ⟨net, p, a, sampleRun_reachable hnet, hst, hsent, hframes, hnew, fun h =>
    Bool.false_ne_true (hest.1 h)⟩

end DartUdp.Core
