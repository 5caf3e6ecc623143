import DartUdp.Proofs.ConnFrames
import DartUdp.Proofs.ConnKeys

/-!
# The handshake between two connections

An exchange is what two ends bring to a handshake: an id, a key pair, a nonce
and a configuration each. Whatever the network does with the packets they send,
and whatever Retry the client is told to make, every hello either of them says
is one of the exchange, and a connection that has session keys has agreed on
what the exchange determines. So two ends that are both established agree.

The module is for `established_ends_agree`. `View.Joins` is the invariant of one end
and `Edit.joins` its rule, as long as what it hears is of the exchange;
`Net.Keeps.perform` is the step of the network and `exchange_keeps` the run.
-/

namespace DartUdp.Core

open DartUdp.Lib DartUdp.Udp

variable {suite : Suite} {L : Prop} {k : Cause} {v v' : View} {c : Connection}
  {role : ConnectionRole}

/-- One end, as it goes into the handshake. -/
structure Party where
  id : Nat
  keyPair : EphemeralKeyPair
  nonce : Bytes
  config : ConnectionConfig

/-- The two ends of a connection. -/
structure Exchange where
  party : ConnectionRole → Party

namespace Exchange

def between (client server : Party) : Exchange where
  party
    | .client => client
    | .server => server

variable (x : Exchange) (suite : Suite)

def publicKey (role : ConnectionRole) : Bytes := (x.party role).keyPair.publicKey suite

/-- The transcript, under the id of one of the ends. -/
def transcript (role : ConnectionRole) : Bytes :=
  handshakeTranscriptHash suite (x.party role).id (x.party .client).nonce (x.party .server).nonce
    (x.publicKey suite .client) (x.publicKey suite .server)

/-- The keys an end derives. -/
def Shares (role : ConnectionRole) (keys : SessionKeys) : Prop :=
  ∃ secret, (x.party role).keyPair.agree suite (x.publicKey suite role.peer) = .ok secret ∧
    deriveSessionKeys suite secret (x.transcript suite role) = .ok keys

/-- The datagram size both can take. -/
def size : Nat :=
  min (x.party .client).config.maxDatagramSize (x.party .server).config.maxDatagramSize

/-- The number of streams both can take. -/
def streams : Nat := min (x.party .client).config.maxStreams (x.party .server).config.maxStreams

/-- What an end says to the other. -/
def Says (role : ConnectionRole) : Frame → Prop
  | .clientHello h =>
      role = .client ∧ h.clientNonce = (x.party .client).nonce ∧
        h.clientPublicKey = x.publicKey suite .client ∧
        x.size ≤ h.maxDatagramSize ∧
        h.maxDatagramSize ≤ (x.party .client).config.maxDatagramSize ∧
        h.maxStreams = (x.party .client).config.maxStreams ∧
        h.initialConnectionWindow = (x.party .client).config.initialConnectionWindow ∧
        h.initialStreamWindow = (x.party .client).config.initialStreamWindow
  | .serverHello h =>
      role = .server ∧ h.serverNonce = (x.party .server).nonce ∧
        h.serverPublicKey = x.publicKey suite .server ∧
        h.maxDatagramSize = x.size ∧ h.maxStreams = x.streams ∧
        h.initialConnectionWindow = (x.party .server).config.initialConnectionWindow ∧
        h.initialStreamWindow = (x.party .server).config.initialStreamWindow
  | .handshakeAck a =>
      role = .client ∧ ∃ keys, x.Shares suite .client keys ∧
        a.clientFinished = keys.finishedTag suite .client (x.transcript suite .client)
  | .maxData _ => False
  | _ => True

/-- Both ends go by one connection id. -/
def SameId : Prop := (x.party .client).id = (x.party .server).id

/-- What an end with session keys has agreed on. -/
structure Agreed (role : ConnectionRole) (config : ConnectionConfig) (handshake : HandshakeState)
    (maxOffset : Nat) (keys : SessionKeys) : Prop where
  same : x.SameId
  shares : x.Shares suite role keys
  transcript : handshake.transcriptHash = some (x.transcript suite role)
  size : config.maxDatagramSize = x.size
  streams : handshake.peerMaxStreams = x.streams
  window : handshake.peerInitialStreamWindow = (x.party role.peer).config.initialStreamWindow
  limit : maxOffset = (x.party role.peer).config.initialConnectionWindow

end Exchange

/-- An end of an exchange. -/
structure View.Joins (suite : Suite) (x : Exchange) (role : ConnectionRole) (v : View) : Prop where
  plays : v.role = role
  id : v.id = (x.party role).id
  own : v.handshake.own = ((x.party role).id, (x.party role).keyPair, (x.party role).nonce,
    if role = .client then some (x.party role).nonce else none)
  maxStreams : v.config.maxStreams = (x.party role).config.maxStreams
  connectionWindow : v.config.initialConnectionWindow =
    (x.party role).config.initialConnectionWindow
  streamWindow : v.config.initialStreamWindow = (x.party role).config.initialStreamWindow
  size : x.size ≤ v.config.maxDatagramSize ∧
    v.config.maxDatagramSize ≤ (x.party role).config.maxDatagramSize
  streams : x.streams ≤ v.handshake.peerMaxStreams ∧
    v.handshake.peerMaxStreams ≤ (x.party role).config.maxStreams
  agreed : ∀ keys, v.handshake.sessionKeys = some keys →
    x.Agreed suite role v.config v.handshake v.send.connectionMaxOffset keys
  shaken : v.state = .established ∨ role = .server ∧ v.state = .handshaking →
    v.handshake.sessionKeys.isSome
  stored : ∀ f, v.stored = some f → x.Says suite role f

namespace View.Joins

variable {x : Exchange}

theorem keep (h : v.Joins suite x role) (hid : v'.identity = v.identity) :
    v'.Joins suite x role := by
  obtain ⟨hrole, hid, hst, hconfig, hhs, hkeys, hmax⟩ := View.identity_eq hid
  have hstored : v'.stored = v.stored := congrArg HandshakeState.frame hhs
  refine ⟨hrole.trans h.plays, hid.trans h.id, ?_, ?_, ?_, ?_, ?_, ?_, ?_, ?_, ?_⟩
  · rw [hhs]
    exact h.own
  · rw [hconfig]
    exact h.maxStreams
  · rw [hconfig]
    exact h.connectionWindow
  · rw [hconfig]
    exact h.streamWindow
  · rw [hconfig]
    exact h.size
  · rw [hhs]
    exact h.streams
  · rw [hhs, hconfig, hmax]
    exact h.agreed
  · rw [hst, hhs]
    exact h.shaken
  · rw [hstored]
    exact h.stored

theorem own_eq (h : v.Joins suite x role) :
    v.handshake.connectionId = (x.party role).id ∧ v.handshake.keyPair = (x.party role).keyPair ∧
      v.handshake.localNonce = (x.party role).nonce ∧
      v.handshake.clientNonce = if role = .client then some (x.party role).nonce else none := by
  have h := h.own
  simpa [HandshakeState.own] using h

theorem transcript_client (h : v.Joins suite x .client) {hello : ServerHello}
    (hnonce : hello.serverNonce = (x.party .server).nonce)
    (hkey : hello.serverPublicKey = x.publicKey suite .server) :
    v.handshake.clientTranscript suite (x.party .client).nonce hello =
      x.transcript suite .client := by
  obtain ⟨hid, hpair, _, _⟩ := h.own_eq
  unfold HandshakeState.clientTranscript Exchange.transcript Exchange.publicKey
  rw [hid, hpair, hnonce, hkey]
  rfl

theorem transcript_server (h : v.Joins suite x .server) {hello : ClientHello}
    (hnonce : hello.clientNonce = (x.party .client).nonce)
    (hkey : hello.clientPublicKey = x.publicKey suite .client) :
    v.handshake.serverTranscript suite hello = x.transcript suite .server := by
  obtain ⟨hid, hpair, hlocal, _⟩ := h.own_eq
  unfold HandshakeState.serverTranscript Exchange.transcript Exchange.publicKey
  rw [hid, hpair, hlocal, hnonce, hkey]
  rfl

/-- The size and the number of streams after a `ClientHello`. -/
theorem heard_client (h : v.Joins suite x .server) {hello : ClientHello}
    (hsaid : x.Says suite .client (.clientHello hello)) :
    (v.hearClient hello).config.maxDatagramSize = x.size ∧
      min v.handshake.peerMaxStreams hello.maxStreams = x.streams := by
  obtain ⟨_, _, _, hlow, hhigh, hstreams, _, _⟩ := hsaid
  constructor
  · unfold View.hearClient
    dsimp only
    split
    · next hst =>
        obtain ⟨keys, hkeys⟩ := Option.isSome_iff_exists.1 (h.shaken (.inl hst))
        exact (h.agreed keys hkeys).size
    · have := h.size
      unfold ConnectionConfig.shrink
      unfold Exchange.size at this hlow ⊢
      dsimp only
      omega
  · have := h.streams
    unfold Exchange.streams at this ⊢
    rw [hstreams]
    omega

/-- Hearing a `ClientHello` changes neither the streams nor the windows of the
configuration. -/
theorem hearClient_config (v : View) (hello : ClientHello) :
    (v.hearClient hello).config.maxStreams = v.config.maxStreams ∧
      (v.hearClient hello).config.initialConnectionWindow = v.config.initialConnectionWindow ∧
      (v.hearClient hello).config.initialStreamWindow = v.config.initialStreamWindow := by
  unfold View.hearClient
  dsimp only
  split <;> exact ⟨rfl, rfl, rfl⟩

theorem hearClient (h : v.Joins suite x .server) {hello : ClientHello}
    (hsaid : x.Says suite .client (.clientHello hello)) :
    (v.hearClient hello).Joins suite x .server := by
  obtain ⟨hsize, hstreams⟩ := h.heard_client hsaid
  obtain ⟨hms, hcw, hsw⟩ := hearClient_config v hello
  obtain ⟨_, _, _, hlow, _, _, hconn, hwindow⟩ := hsaid
  refine ⟨h.plays, h.id, h.own, hms.trans h.maxStreams, hcw.trans h.connectionWindow,
    hsw.trans h.streamWindow, ?_, ?_, fun keys hkeys => ?_, h.shaken, h.stored⟩
  · rw [hsize]
    exact ⟨Nat.le_refl _, Nat.min_le_right _ _⟩
  · show x.streams ≤ min v.handshake.peerMaxStreams hello.maxStreams ∧
      min v.handshake.peerMaxStreams hello.maxStreams ≤ (x.party .server).config.maxStreams
    rw [hstreams]
    exact ⟨Nat.le_refl _, Nat.min_le_right _ _⟩
  · have hagreed := h.agreed keys hkeys
    exact ⟨hagreed.same, hagreed.shares, hagreed.transcript, hsize, hstreams, hwindow,
      hagreed.limit⟩

theorem answerClient (h : v.Joins suite x .server) {hello : ClientHello} {keys : SessionKeys}
    (hsaid : x.Says suite .client (.clientHello hello)) (hsame : x.SameId)
    (hkeys : v.handshake.Shares suite hello.clientPublicKey
      (v.handshake.serverTranscript suite hello) keys)
    (hmax : (x.party .server).config.maxDatagramSize ≤ 0xffff) :
    (v.answerClient suite hello keys).Joins suite x .server := by
  obtain ⟨hsize, hstreams⟩ := h.heard_client hsaid
  have hheard := h.hearClient hsaid
  have hsaid' := hsaid
  obtain ⟨_, hnonce, hkey, hlow, _, _, hconn, hwindow⟩ := hsaid'
  obtain ⟨hid, hpair, hlocal, _⟩ := h.own_eq
  have htranscript := h.transcript_server hnonce hkey
  have hshares : x.Shares suite .server keys := by
    obtain ⟨secret, hsecret, hderive⟩ := hkeys
    rw [hpair, hkey] at hsecret
    rw [htranscript] at hderive
    exact ⟨secret, hsecret, hderive⟩
  have hlimit : (v.answerClient suite hello keys).send.connectionMaxOffset =
      (x.party .client).config.initialConnectionWindow := by
    unfold View.answerClient
    dsimp only
    split
    · next hst =>
        obtain ⟨keys', hkeys'⟩ := Option.isSome_iff_exists.1 (h.shaken (.inl hst))
        exact (h.agreed keys' hkeys').limit
    · exact hconn
  refine ⟨h.plays, h.id, h.own, hheard.maxStreams, hheard.connectionWindow, hheard.streamWindow,
    hheard.size, hheard.streams, fun keys' hkeys' => ?_, fun _ => rfl, fun f hf => ?_⟩
  · cases hkeys'
    exact ⟨hsame, hshares, congrArg some htranscript, hsize, hstreams, hwindow, hlimit⟩
  · cases hf
    refine ⟨rfl, hlocal, ?_, ?_, ?_, hheard.connectionWindow, hheard.streamWindow⟩
    · show EphemeralKeyPair.publicKey suite v.handshake.keyPair = _
      rw [hpair]
      rfl
    · show asU16 (v.hearClient hello).config.maxDatagramSize = x.size
      rw [hsize]
      have : x.size ≤ (x.party .server).config.maxDatagramSize := Nat.min_le_right _ _
      exact Nat.mod_eq_of_lt (by omega)
    · show min (v.hearClient hello).config.maxStreams
        (min v.handshake.peerMaxStreams hello.maxStreams) = x.streams
      rw [hstreams, hheard.maxStreams]
      unfold Exchange.streams
      omega

/-- The size and the number of streams after a `ServerHello`. -/
theorem heard_server (h : v.Joins suite x .client) {hello : ServerHello}
    (hsaid : x.Says suite .server (.serverHello hello)) :
    min v.config.maxDatagramSize hello.maxDatagramSize = x.size ∧
      min v.handshake.peerMaxStreams hello.maxStreams = x.streams := by
  obtain ⟨_, _, _, hsize, hstreams, _, _⟩ := hsaid
  rw [hsize, hstreams]
  exact ⟨Nat.min_eq_right h.size.1, Nat.min_eq_right h.streams.1⟩

theorem hearServer (h : v.Joins suite x .client) {hello : ServerHello}
    (hsaid : x.Says suite .server (.serverHello hello)) :
    (v.hearServer hello).Joins suite x .client := by
  obtain ⟨hsize, hstreams⟩ := h.heard_server hsaid
  obtain ⟨_, _, _, _, _, hconn, hwindow⟩ := hsaid
  refine ⟨h.plays, h.id, h.own, h.maxStreams, h.connectionWindow, h.streamWindow, ?_, ?_,
    fun keys hkeys => ?_, h.shaken, h.stored⟩
  · show x.size ≤ min v.config.maxDatagramSize hello.maxDatagramSize ∧
      min v.config.maxDatagramSize hello.maxDatagramSize ≤ _
    rw [hsize]
    exact ⟨Nat.le_refl _, Nat.min_le_left _ _⟩
  · show x.streams ≤ min v.handshake.peerMaxStreams hello.maxStreams ∧
      min v.handshake.peerMaxStreams hello.maxStreams ≤ _
    rw [hstreams]
    exact ⟨Nat.le_refl _, Nat.min_le_left _ _⟩
  · have hagreed := h.agreed keys hkeys
    exact ⟨hagreed.same, hagreed.shares, hagreed.transcript, hsize, hstreams, hwindow,
      hagreed.limit⟩

theorem answerServer (h : v.Joins suite x .client) {hello : ServerHello} {nonce : Bytes}
    {keys : SessionKeys} (hsaid : x.Says suite .server (.serverHello hello)) (hsame : x.SameId)
    (hnonce : v.handshake.clientNonce = some nonce)
    (hkeys : v.handshake.Shares suite hello.serverPublicKey
      (v.handshake.clientTranscript suite nonce hello) keys) :
    (v.answerServer suite hello (v.handshake.clientTranscript suite nonce hello) keys).Joins suite x
      .client := by
  obtain ⟨hsize, hstreams⟩ := h.heard_server hsaid
  have hheard := h.hearServer hsaid
  obtain ⟨_, hpeer, hkey, _, _, hconn, hwindow⟩ := hsaid
  obtain ⟨hid, hpair, hlocal, hclient⟩ := h.own_eq
  cases hclient.symm.trans hnonce
  have htranscript := h.transcript_client hpeer hkey
  have hshares : x.Shares suite .client keys := by
    obtain ⟨secret, hsecret, hderive⟩ := hkeys
    rw [hpair, hkey] at hsecret
    rw [htranscript] at hderive
    exact ⟨secret, hsecret, hderive⟩
  refine ⟨h.plays, h.id, h.own, hheard.maxStreams, hheard.connectionWindow, hheard.streamWindow,
    hheard.size, hheard.streams, fun keys' hkeys' => ?_, fun _ => rfl, fun f hf => ?_⟩
  · cases hkeys'
    exact ⟨hsame, hshares, congrArg some htranscript, hsize, hstreams, hwindow, hconn⟩
  · cases hf
    refine ⟨rfl, keys, hshares, ?_⟩
    rw [htranscript]

theorem retry (h : v.Joins suite x .client) (cookie : Bytes)
    (hmax : (x.party .client).config.maxDatagramSize ≤ 0xffff) :
    (v.retry suite cookie).Joins suite x .client := by
  obtain ⟨_, hpair, hlocal, _⟩ := h.own_eq
  refine ⟨h.plays, h.id, h.own, h.maxStreams, h.connectionWindow, h.streamWindow, h.size,
    h.streams, fun keys hkeys => ?_, h.shaken, fun f hf => ?_⟩
  · have hagreed := h.agreed keys hkeys
    exact ⟨hagreed.same, hagreed.shares, hagreed.transcript, hagreed.size, hagreed.streams,
      hagreed.window, hagreed.limit⟩
  · cases hf
    have hsize : asU16 v.config.maxDatagramSize = v.config.maxDatagramSize := by
      have := h.size.2
      exact Nat.mod_eq_of_lt (by omega)
    refine ⟨rfl, hlocal, ?_, ?_, ?_, h.maxStreams, h.connectionWindow, h.streamWindow⟩
    · show EphemeralKeyPair.publicKey suite v.handshake.keyPair = _
      rw [hpair]
      rfl
    · show x.size ≤ asU16 v.config.maxDatagramSize
      rw [hsize]
      exact h.size.1
    · show asU16 v.config.maxDatagramSize ≤ _
      rw [hsize]
      exact h.size.2

theorem turn (h : v.Joins suite x role) {st : ConnectionState}
    (hst : st = .closing ∨ st = .closed ∨
      v.state = .idle ∧ st = .handshaking ∧ v.handshake.sessionKeys.isSome) :
    ({ v with state := st } : View).Joins suite x role := by
  refine ⟨h.plays, h.id, h.own, h.maxStreams, h.connectionWindow, h.streamWindow, h.size,
    h.streams, h.agreed, fun hs => ?_, h.stored⟩
  rcases hst with rfl | rfl | ⟨_, _, hsome⟩
  · rcases hs with hs | ⟨_, hs⟩ <;> cases hs
  · rcases hs with hs | ⟨_, hs⟩ <;> cases hs
  · exact hsome

end View.Joins

/-- What an end hears is what the other says. -/
def Hears (suite : Suite) (x : Exchange) (role : ConnectionRole) (k : Cause) : Prop :=
  ∀ p, k = .packet p → ∀ f ∈ p.frames, x.Says suite role.peer f ∧ (Hello f → x.SameId)

theorem Edit.joins {x : Exchange} (e : Edit suite L k v v') (h : v.Joins suite x role)
    (hears : Hears suite x role k) (hmax : (x.party role).config.maxDatagramSize ≤ 0xffff) :
    v'.Joins suite x role := by
  cases e with
  | turn st hst => exact h.turn hst
  | hearClient p hello hk htype hf hrole =>
      cases h.plays.symm.trans hrole
      exact h.hearClient (hears p hk _ hf).1
  | answerClient p hello keys hk htype hf hrole hnonce hkeys =>
      cases h.plays.symm.trans hrole
      exact h.answerClient (hears p hk _ hf).1 ((hears p hk _ hf).2 trivial) hkeys hmax
  | hearServer p hello hk hf hrole =>
      cases h.plays.symm.trans hrole
      exact h.hearServer (hears p hk _ hf).1
  | answerServer p hello nonce keys hk hf hrole hst hnonce hkeys =>
      cases h.plays.symm.trans hrole
      exact h.answerServer (hears p hk _ hf).1 ((hears p hk _ hf).2 trivial) hnonce hkeys
  | establish keys hst hkeys =>
      refine ⟨h.plays, h.id, h.own, h.maxStreams, h.connectionWindow, h.streamWindow, h.size,
        h.streams, h.agreed, fun _ => ?_, h.stored⟩
      show v.handshake.sessionKeys.isSome
      rw [hkeys]
      rfl
  | secure keys hkeys =>
      exact ⟨h.plays, h.id, h.own, h.maxStreams, h.connectionWindow, h.streamWindow, h.size,
        h.streams, h.agreed, h.shaken, h.stored⟩
  | retry p cookie hk hf hrole =>
      cases h.plays.symm.trans hrole
      exact h.retry cookie hmax
  | retries n =>
      refine ⟨h.plays, h.id, h.own, h.maxStreams, h.connectionWindow, h.streamWindow, h.size,
        h.streams, fun keys hkeys => ?_, h.shaken, h.stored⟩
      have hagreed := h.agreed keys hkeys
      exact ⟨hagreed.same, hagreed.shares, hagreed.transcript, hagreed.size, hagreed.streams,
        hagreed.window, hagreed.limit⟩
  | grant p m hk hf => exact (hears p hk _ hf).1.elim
  | read id maxLen s => exact h.keep (v.read_identity id maxLen s)
  | lose n count sp =>
      exact h.keep (View.outward_putBackAll (v.forget n) count sp.frames.reverse).identity
  | drop n count m sp =>
      exact h.keep (View.outward_putBackAll (v.forget n) count (sp.frames.reverse.take m)).identity
  | emit q v₁ sp ht => exact h.keep ((v₁.account_identity q).trans ht.outward.identity)
  | pass q v₁ ht => exact h.keep ((v₁.account_identity q).trans ht.outward.identity)
  | lost q v₁ next hl ht => exact h.keep ht.outward.identity
  | back q v₁ ht => exact h.keep (ht.outward.trans (v₁.outward_putBack _ _)).identity
  | _ => exact h.keep rfl

/-- An end only says what the exchange lets it say. -/
theorem View.Joins.makes {x : Exchange} (h : v.Joins suite x role) :
    v.Makes (x.Says suite role) k := by
  refine ⟨fun f hf => ?_, h.stored, fun _ _ => trivial, fun _ _ _ _ => trivial,
    fun _ _ _ _ _ _ _ => trivial, fun _ _ _ _ _ _ _ _ _ _ _ _ _ => trivial⟩
  cases f with
  | ping nonce => trivial
  | pong nonce => trivial
  | connectionClose frame => trivial
  | _ => exact hf.elim

theorem Edits.joins_carries {x : Exchange} (h : Edits suite L k v v') (hv : v.Joins suite x role)
    (hc : v.Carries (x.Says suite role)) (hears : Hears suite x role k)
    (hmax : (x.party role).config.maxDatagramSize ≤ 0xffff) :
    v'.Joins suite x role ∧ v'.Carries (x.Says suite role) := by
  induction h with
  | refl => exact ⟨hv, hc⟩
  | tail _ e ih => exact ⟨e.joins ih.1 hears hmax, e.carries ih.2 ih.1.makes⟩

/-! ## The system -/

/-- A packet for another connection changes nothing. -/
theorem onDatagram_mismatch {p : Packet} (h : p.connectionId ≠ c.id) :
    after (perform suite (.onDatagram p)) c = c := by
  refine Ends.after (P := fun c' => c' = c) (ends_bind.2 ?_)
  simp only [onDatagram, ends_steps]
  exact ⟨fun _ => trivial, fun _ => ⟨fun _ => trivial, fun hid => absurd h hid⟩⟩

/-- A `ClientHello` of the exchange. -/
def Exchange.Offers (x : Exchange) (suite : Suite) (hello : ClientHello) : Prop :=
  x.Says suite .client (.clientHello hello)

theorem Exchange.oneKey (x : Exchange) : OneKey (x.Offers suite) := fun _ _ h h' _ =>
  h.2.2.1.trans h'.2.2.1.symm

/-- Both ends keep to the exchange, in their state and in all they sent. -/
structure Net.Keeps (suite : Suite) (x : Exchange) (net : Net) : Prop where
  joins : ∀ role, (net.conn role).view.Joins suite x role
  keyed : ∀ role, (net.conn role).view.Keyed suite (x.Offers suite)
  carries : ∀ role, (net.conn role).view.Carries (x.Says suite role)
  sent : ∀ role, ∀ p ∈ net.sent role,
    p.connectionId = (x.party role).id ∧ ∀ f ∈ p.frames, x.Says suite role f ∧ Typed p f

theorem Exchange.sameId_of_ids {x : Exchange} (role : ConnectionRole)
    (h : (x.party role.peer).id = (x.party role).id) : x.SameId := by
  cases role with
  | client => exact h.symm
  | server => exact h

/-- What arrives at an end under its own id is what the other end says. -/
theorem Net.Keeps.hears {x : Exchange} {net : Net} (h : net.Keeps suite x) {call : Call}
    (harrive : ∀ packet, call = .receive packet → net.CanArrive role packet)
    (hid : ∀ p, call = .receive p → p.connectionId = (net.conn role).id) :
    Hears suite x role (cause suite (net.conn role) call.op) := by
  intro p hk f hf
  have hcall : call = .receive p := by
    cases call with
    | receive packet =>
        cases hk
        rfl
    | _ => cases hk
  rcases harrive p hcall with hsent | ⟨cookie, rfl⟩
  · obtain ⟨hpid, hsaid⟩ := h.sent role.peer p hsent
    refine ⟨(hsaid f hf).1, fun _ => Exchange.sameId_of_ids role ?_⟩
    have hown : (net.conn role).id = (x.party role).id := (h.joins role).id
    rw [← hpid, hid p hcall, hown]
  · cases List.mem_singleton.1 hf
    exact ⟨trivial, nofun⟩

/-- The `ClientHello`s an end hears are those of the exchange. -/
theorem Hears.offers {x : Exchange} (h : Hears suite x role k) (p : Packet) (hello : ClientHello)
    (hk : k = .packet p) (hf : .clientHello hello ∈ p.frames) : x.Offers suite hello := by
  have hsaid := (h p hk _ hf).1
  exact ⟨rfl, hsaid.2⟩

/-- The outputs of a call are drained. -/
theorem View.Joins.drained {x : Exchange} (h : c.view.Joins suite x role) :
    ({ c with output := [] } : Connection).view.Joins suite x role := h.keep rfl

theorem Net.Keeps.perform {x : Exchange} {net : Net} (h : net.Keeps suite x)
    (hmax : ∀ role, (x.party role).config.maxDatagramSize ≤ 0xffff) {call : Call}
    (harrive : ∀ packet, call = .receive packet → net.CanArrive role packet) :
    (net.perform suite role call).Keeps suite x := by
  have hafter : (after (Core.perform suite call.op) (net.conn role)).view.Keyed suite
        (x.Offers suite) ∧
      (after (Core.perform suite call.op) (net.conn role)).view.Joins suite x role ∧
      (after (Core.perform suite call.op) (net.conn role)).view.Carries (x.Says suite role) := by
    by_cases hid : ∀ p, call = .receive p → p.connectionId = (net.conn role).id
    · have hedits := perform_edits suite call.op (net.conn role)
      have hears := h.hears harrive hid
      exact ⟨hedits.keyed (h.keyed role) (fun _ => x.oneKey) fun p hello hk _ hf =>
          hears.offers p hello hk hf,
        hedits.joins_carries (h.joins role) (h.carries role) hears (hmax role)⟩
    · push Not at hid
      obtain ⟨p, rfl, hp⟩ := hid
      rw [show Call.op (.receive p) = .onDatagram p from rfl, onDatagram_mismatch hp]
      exact ⟨h.keyed role, h.joins role, h.carries role⟩
  obtain ⟨hkeyed, hjoins, hcarries⟩ := hafter
  constructor
  · intro other
    by_cases ho : other = role
    · subst ho
      rw [Net.perform_conn_self]
      exact hjoins.drained
    · rw [Net.perform_conn_of_ne suite net call ho]
      exact h.joins other
  · intro other
    by_cases ho : other = role
    · subst ho
      rw [Net.perform_conn_self]
      exact hkeyed.keep rfl
    · rw [Net.perform_conn_of_ne suite net call ho]
      exact h.keyed other
  · intro other
    by_cases ho : other = role
    · subst ho
      rw [Net.perform_conn_self]
      exact ⟨hcarries.pending, hcarries.queues, hcarries.unacked, nofun⟩
    · rw [Net.perform_conn_of_ne suite net call ho]
      exact h.carries other
  · intro other p hp
    by_cases ho : other = role
    · subst ho
      rw [Net.perform_sent_self] at hp
      rcases List.mem_append.1 hp with hp | hp
      · exact h.sent other p hp
      · obtain ⟨hpid, hsaid⟩ := hcarries.sends p hp
        exact ⟨hpid.trans hjoins.id, hsaid⟩
    · rw [Net.perform_sent_of_ne suite net call ho] at hp
      exact h.sent other p hp

/-! ## The start -/

/-- The `ClientHello` a client is made with. -/
theorem Exchange.says_clientHello {x : Exchange} {h : HandshakeState}
    (hpair : h.keyPair = (x.party .client).keyPair)
    (hlocal : h.localNonce = (x.party .client).nonce)
    (hmax : (x.party .client).config.maxDatagramSize ≤ 0xffff) :
    x.Says suite .client (.clientHello (h.clientHello suite (x.party .client).config)) := by
  have hsize : asU16 (x.party .client).config.maxDatagramSize =
      (x.party .client).config.maxDatagramSize := Nat.mod_eq_of_lt (by omega)
  refine ⟨rfl, hlocal, ?_, ?_, ?_, rfl, rfl, rfl⟩
  · show EphemeralKeyPair.publicKey suite h.keyPair = _
    rw [hpair]
    rfl
  · show x.size ≤ asU16 (x.party .client).config.maxDatagramSize
    rw [hsize]
    exact Nat.min_le_left _ _
  · exact Nat.le_of_eq hsize

theorem Exchange.size_le (x : Exchange) (role : ConnectionRole) :
    x.size ≤ (x.party role).config.maxDatagramSize := by
  cases role with
  | client => exact Nat.min_le_left _ _
  | server => exact Nat.min_le_right _ _

theorem Exchange.streams_le (x : Exchange) (role : ConnectionRole) :
    x.streams ≤ (x.party role).config.maxStreams := by
  cases role with
  | client => exact Nat.min_le_left _ _
  | server => exact Nat.min_le_right _ _

theorem initial_joins (suite : Suite) {x : Exchange} (role : ConnectionRole)
    (hmax : (x.party role).config.maxDatagramSize ≤ 0xffff) {handshake : HandshakeState}
    (hunused : handshake =
      { connectionId := (x.party role).id
        keyPair := (x.party role).keyPair
        localNonce := (x.party role).nonce
        peerMaxStreams := (x.party role).config.maxStreams
        peerInitialStreamWindow := (x.party role).config.initialStreamWindow }) :
    (View.initial suite role (x.party role).id (x.party role).config handshake).Joins suite x role ∧
      (View.initial suite role (x.party role).id (x.party role).config handshake).Carries
        (x.Says suite role) := by
  subst hunused
  cases role with
  | client =>
      have hsaid := @Exchange.says_clientHello suite x
        (h := { connectionId := (x.party .client).id
                keyPair := (x.party .client).keyPair
                localNonce := (x.party .client).nonce
                peerMaxStreams := (x.party .client).config.maxStreams
                peerInitialStreamWindow := (x.party .client).config.initialStreamWindow })
        rfl rfl hmax
      refine ⟨⟨rfl, rfl, rfl, rfl, rfl, rfl, ⟨x.size_le .client, Nat.le_refl _⟩,
        ⟨x.streams_le .client, Nat.le_refl _⟩, nofun, fun h => ?_, fun f hf => ?_⟩,
        fun q hq => ?_, nofun, nofun, nofun⟩
      · rcases h with h | ⟨h, _⟩ <;> cases h
      · cases hf
        exact hsaid
      · rw [List.mem_singleton.1 hq]
        exact hsaid
  | server =>
      refine ⟨⟨rfl, rfl, rfl, rfl, rfl, rfl, ⟨x.size_le .server, Nat.le_refl _⟩,
        ⟨x.streams_le .server, Nat.le_refl _⟩, nofun, fun h => ?_, nofun⟩, nofun, nofun, nofun,
        nofun⟩
      rcases h with h | ⟨_, h⟩ <;> cases h

/-- Two fresh connections are the ends of an exchange. -/
theorem start_keeps {clientConfig serverConfig : ConnectionConfig} {client server : Connection}
    (hclient : Fresh suite .client clientConfig client)
    (hserver : Fresh suite .server serverConfig server) :
    ∃ x : Exchange, (x.party .client).config = clientConfig ∧
      (x.party .server).config = serverConfig ∧
      (∀ role, (x.party role).config.maxDatagramSize ≤ 0xffff) ∧
      (Net.start client server).Keeps suite x := by
  obtain ⟨hvc, idc, hsc, ⟨pairc, noncec, hunusedc⟩, heditsc⟩ := fresh_edits hclient
  obtain ⟨hvs, ids, hss, ⟨pairs, nonces, hunuseds⟩, heditss⟩ := fresh_edits hserver
  let x := Exchange.between ⟨idc, pairc, noncec, clientConfig⟩ ⟨ids, pairs, nonces, serverConfig⟩
  have hmax : ∀ role, (x.party role).config.maxDatagramSize ≤ 0xffff := by
    intro role
    cases role with
    | client => exact (validate_limits hvc).1
    | server => exact (validate_limits hvs).1
  have hc := initial_joins suite (x := x) .client (hmax .client) hunusedc
  have hs := initial_joins suite (x := x) .server (hmax .server) hunuseds
  have hkc := @fresh_keyed _ _ _ _ hclient (x.Offers suite) fun _ => x.oneKey
  have hks := @fresh_keyed _ _ _ _ hserver (x.Offers suite) fun _ => x.oneKey
  obtain ⟨hjc, hcc⟩ := heditsc.joins_carries hc.1 hc.2 (fun _ h => by cases h) (hmax .client)
  obtain ⟨hjs, hcs⟩ := heditss.joins_carries hs.1 hs.2 (fun _ h => by cases h) (hmax .server)
  refine ⟨x, rfl, rfl, hmax, fun role => ?_, fun role => ?_, fun role => ?_, fun role p hp => ?_⟩
  · cases role with
    | client => exact hjc.drained
    | server => exact hjs.drained
  · cases role with
    | client => exact hkc.keep rfl
    | server => exact hks.keep rfl
  · cases role with
    | client => exact ⟨hcc.pending, hcc.queues, hcc.unacked, fun _ h => by cases h⟩
    | server => exact ⟨hcs.pending, hcs.queues, hcs.unacked, fun _ h => by cases h⟩
  · cases role with
    | client =>
        obtain ⟨hpid, hsaid⟩ := hcc.sends p hp
        exact ⟨hpid.trans hjc.id, hsaid⟩
    | server =>
        obtain ⟨hpid, hsaid⟩ := hcs.sends p hp
        exact ⟨hpid.trans hjs.id, hsaid⟩

theorem exchange_keeps {clientConfig serverConfig : ConnectionConfig} {client server : Connection}
    (hclient : Fresh suite .client clientConfig client)
    (hserver : Fresh suite .server serverConfig server)
    (actions : List (ConnectionRole × Action)) :
    ∃ x : Exchange, (x.party .client).config = clientConfig ∧
      (x.party .server).config = serverConfig ∧
      ((Net.start client server).run suite actions).Keeps suite x := by
  obtain ⟨x, hcc, hsc, hmax, hstart⟩ := start_keeps hclient hserver
  exact ⟨x, hcc, hsc, Net.run_induction (P := Net.Keeps suite x) hstart
    (fun _ _ _ h harrive => h.perform hmax harrive) actions⟩

/-! ## Agreement -/

/-- Diffie-Hellman gives both ends the same secret. -/
def Suite.Commutes (suite : Suite) : Prop :=
  ∀ a b, suite.diffieHellman a (suite.publicKey b) = suite.diffieHellman b (suite.publicKey a)

theorem Exchange.shares_unique {x : Exchange} (hdh : Suite.Commutes suite) (hsame : x.SameId)
    {keys keys' : SessionKeys} (hc : x.Shares suite .client keys)
    (hs : x.Shares suite .server keys') : keys = keys' := by
  obtain ⟨secret, hsecret, hkeys⟩ := hc
  obtain ⟨secret', hsecret', hkeys'⟩ := hs
  have htranscript : x.transcript suite .server = x.transcript suite .client := by
    unfold Exchange.transcript
    rw [hsame]
  have hagree : (x.party .server).keyPair.agree suite (x.publicKey suite .client) =
      (x.party .client).keyPair.agree suite (x.publicKey suite .server) := by
    unfold EphemeralKeyPair.agree Exchange.publicKey EphemeralKeyPair.publicKey
    rw [hdh]
  rw [htranscript] at hkeys'
  cases hsecret.symm.trans (hagree.symm.trans hsecret')
  cases hkeys.symm.trans hkeys'
  rfl

/-- The two ends have agreed: on the keys, the number of streams and the datagram
size, and each knows the windows of the other. -/
structure Net.Agree (net : Net) (clientConfig serverConfig : ConnectionConfig) : Prop where
  keys : ∃ keys, ∀ role, (net.conn role).handshake.sessionKeys = some keys ∧
    (net.conn role).packetCrypto.map (·.keys) = some keys
  streams : (net.conn .client).effectiveMaxStreams = (net.conn .server).effectiveMaxStreams
  size : (net.conn .client).config.maxDatagramSize = (net.conn .server).config.maxDatagramSize
  streamWindows :
    (net.conn .client).handshake.peerInitialStreamWindow = serverConfig.initialStreamWindow ∧
      (net.conn .server).handshake.peerInitialStreamWindow = clientConfig.initialStreamWindow
  connectionWindows :
    (net.conn .client).connectionSend.connectionMaxOffset = serverConfig.initialConnectionWindow ∧
      (net.conn .server).connectionSend.connectionMaxOffset = clientConfig.initialConnectionWindow

/-- Whatever the network and the two applications do, two ends that are both
established agree. -/
theorem established_ends_agree (suite : Suite) (hdh : Suite.Commutes suite)
    {clientConfig serverConfig : ConnectionConfig} {client server : Connection}
    (hclient : Fresh suite .client clientConfig client)
    (hserver : Fresh suite .server serverConfig server)
    (actions : List (ConnectionRole × Action))
    (hestablished : ∀ role,
      (((Net.start client server).run suite actions).conn role).state = .established) :
    ((Net.start client server).run suite actions).Agree clientConfig serverConfig := by
  obtain ⟨x, rfl, rfl, hkeeps⟩ := exchange_keeps hclient hserver actions
  have hjoins := hkeeps.joins
  have hsome : ∀ role, ∃ keys,
      (((Net.start client server).run suite actions).conn role).handshake.sessionKeys = some keys :=
    fun role => Option.isSome_iff_exists.1 ((hjoins role).shaken (.inl (hestablished role)))
  obtain ⟨keys, hkeys⟩ := hsome .client
  obtain ⟨keys', hkeys'⟩ := hsome .server
  have hac := (hjoins .client).agreed keys hkeys
  have has := (hjoins .server).agreed keys' hkeys'
  have heq := Exchange.shares_unique hdh hac.same hac.shares has.shares
  have hstreams : ∀ role,
      (((Net.start client server).run suite actions).conn role).effectiveMaxStreams =
        x.streams := by
    intro role
    obtain ⟨keys, hkeys⟩ := hsome role
    show min _ _ = _
    have hagreed := (hjoins role).agreed keys hkeys
    rw [show (((Net.start client server).run suite actions).conn role).config.maxStreams = _ from
      (hjoins role).maxStreams,
      show (((Net.start client server).run suite actions).conn role).handshake.peerMaxStreams = _
        from hagreed.streams]
    exact Nat.min_eq_right (x.streams_le role)
  have hpacket : ∀ role keys,
      (((Net.start client server).run suite actions).conn role).handshake.sessionKeys = some keys →
      (((Net.start client server).run suite actions).conn role).packetCrypto.map (·.keys) =
        some keys := by
    intro role keys hkeys
    obtain ⟨keys', hkeys'⟩ := Option.isSome_iff_exists.1
      ((hkeeps.keyed role).established (hestablished role))
    cases hkeys.symm.trans ((hkeeps.keyed role).active keys' hkeys')
    exact hkeys'
  refine ⟨⟨keys, fun role => ?_⟩, (hstreams .client).trans (hstreams .server).symm,
    hac.size.trans has.size.symm, ⟨hac.window, has.window⟩, ⟨hac.limit, has.limit⟩⟩
  cases role with
  | client => exact ⟨hkeys, hpacket .client keys hkeys⟩
  | server =>
      rw [heq]
      exact ⟨hkeys', hpacket .server keys' hkeys'⟩

theorem sampleSuite_publicKey_head (secret : Bytes) :
    (sampleSuite.publicKey secret).head? = some 0x50 ↔
      secret.head? ≠ some 1 ∧ secret.head? ≠ some 2 := by
  unfold sampleSuite
  dsimp only
  split
  · next h =>
      rw [h]
      decide
  · next h =>
      rw [h]
      decide
  · next h₁ h₂ => exact ⟨fun _ => ⟨h₁, h₂⟩, fun _ => by decide⟩

theorem sampleSuite_commutes : Suite.Commutes sampleSuite := by
  intro a b
  have hdh : ∀ secret publicKey, sampleSuite.diffieHellman secret publicKey = beBytes 32
      (if (secret.head? ≠ some 1 && secret.head? ≠ some 2) || publicKey.head? = some 0x50 then
        0xeae6c8a9cecac8ef9a0ad59794fef9d4fe8ef407e7ee7eb4856ca6f88a96db4b
      else 0x2ed76ab549b1e73c031eb49c9448f0798aea81b698279a0c3dc3e49fbfc4b953) := fun _ _ => rfl
  rw [hdh, hdh]
  congr 1
  refine if_congr ?_ rfl rfl
  simp only [Bool.or_eq_true, Bool.and_eq_true, decide_eq_true_eq, sampleSuite_publicKey_head]
  exact or_comm

theorem established_ends_agree_sample : ∃ client server,
    Fresh sampleSuite .client {} client ∧ Fresh sampleSuite .server {} server ∧
      ((Net.start client server).run sampleSuite sampleHandshake).Agree {} {} := by
  obtain ⟨net, hnet, hp⟩ := of_checks (r := sampleRun {} {} sampleHandshake)
    (p := fun net => (net.conn .client).state == .established &&
      (net.conn .server).state == .established)
    (by decide +kernel)
  obtain ⟨client, server, hclient, hserver, rfl⟩ := sampleRun_fresh hnet
  simp only [Bool.and_eq_true, beq_iff_eq] at hp
  refine ⟨client, server, hclient, hserver, established_ends_agree sampleSuite
    sampleSuite_commutes hclient hserver sampleHandshake fun role => ?_⟩
  cases role with
  | client => exact hp.1
  | server => exact hp.2

end DartUdp.Core
