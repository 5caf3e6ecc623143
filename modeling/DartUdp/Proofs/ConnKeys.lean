import DartUdp.Proofs.ConnEdits

/-!
# The keys of a connection

The session keys are derived anew from every hello a connection answers; the
packet keys are taken from them once. They stay the same as long as every
`ClientHello` with the nonce of the first also has its public key: the
transcript is then the same, and so is everything derived from it. The code
compares the nonce only, so a `ClientHello` with another public key separates
the two.

The module is for `one_key_of_one_public_key` and `finished_binds_nonces_and_keys`.
`Edit.keyed` keeps that the keys come from the shares of one public key,
`onDatagram_keyed` says which hellos a datagram adds to those heard, and
`verifyFinished_ok_iff` is what the tag is compared with.
-/

namespace DartUdp.Core

open DartUdp.Lib DartUdp.Udp

variable {suite : Suite} {L : Prop} {k : Cause} {v v' : View} {c : Connection}

/-! ## What the handshake is about -/

/-- The part of a view that only the handshake, the state and a raised limit
change. -/
def View.identity (v : View) : ConnectionRole × Nat × ConnectionState × ConnectionConfig ×
    HandshakeState × Option SessionKeys × Nat :=
  (v.role, v.id, v.state, v.config, v.handshake, v.keys, v.send.connectionMaxOffset)

theorem View.identity_eq (h : v'.identity = v.identity) :
    v'.role = v.role ∧ v'.id = v.id ∧ v'.state = v.state ∧ v'.config = v.config ∧
      v'.handshake = v.handshake ∧ v'.keys = v.keys ∧
      v'.send.connectionMaxOffset = v.send.connectionMaxOffset := by
  simpa [View.identity] using h

theorem View.Outward.identity (h : v.Outward v') : v'.identity = v.identity := by
  obtain ⟨streams, pending, rfl, _⟩ := h
  rfl

theorem View.account_identity (v : View) (q : QueuedFrame) :
    (v.account q).identity = v.identity := by
  obtain ⟨sent, heq⟩ := v.account_eq q
  rw [heq]
  rfl

theorem View.read_identity (v : View) (id maxLen : Nat) (s : StreamRecord) :
    (v.read id maxLen s).identity = v.identity := by
  obtain ⟨_, _, _, heq⟩ := v.read_eq id maxLen s
  rw [heq]
  rfl

/-- What a connection brings to the handshake. -/
def HandshakeState.own (h : HandshakeState) : Nat × EphemeralKeyPair × Bytes × Option Bytes :=
  (h.connectionId, h.keyPair, h.localNonce, h.clientNonce)

/-- No edit changes it. -/
theorem Edit.own (e : Edit suite L k v v') : v'.handshake.own = v.handshake.own := by
  have hkeep : ∀ v'' : View, v''.identity = v.identity → v''.handshake.own = v.handshake.own :=
    fun v'' hid => congrArg HandshakeState.own (View.identity_eq hid).2.2.2.2.1
  cases e with
  | read id maxLen s => exact hkeep _ (v.read_identity id maxLen s)
  | lose n count sp =>
      exact hkeep _ (View.outward_putBackAll (v.forget n) count sp.frames.reverse).identity
  | drop n count m sp =>
      exact hkeep _ (View.outward_putBackAll (v.forget n) count
        (sp.frames.reverse.take m)).identity
  | emit q v₁ sp ht => exact hkeep _ ((v₁.account_identity q).trans ht.outward.identity)
  | pass q v₁ ht => exact hkeep _ ((v₁.account_identity q).trans ht.outward.identity)
  | lost q v₁ next hl ht => exact hkeep _ ht.outward.identity
  | back q v₁ ht => exact hkeep _ (ht.outward.trans (v₁.outward_putBack _ _)).identity
  | _ => rfl

theorem Edits.own (h : Edits suite L k v v') : v'.handshake.own = v.handshake.own := by
  induction h with
  | refl => rfl
  | tail _ e ih => exact e.own.trans ih

theorem final_own (suite : Suite) (c : Connection) (ops : List Op) :
    (final suite c ops).handshake.own = c.handshake.own :=
  final_keeps suite (I := fun d => d.handshake.own = c.handshake.own) ops rfl
    fun d op h => (perform_edits suite op d).own.trans h

/-- The nonce a client sends is its own. -/
theorem client_nonce {config : ConnectionConfig} (h : Fresh suite .client config c)
    (ops : List Op) : (final suite c ops).handshake.clientNonce =
      some (final suite c ops).handshake.localNonce := by
  obtain ⟨_, id, handshake, hunused, hedits⟩ := fresh_edits h
  have hown := (final_own suite c ops).trans hedits.own
  simp only [HandshakeState.own, Prod.mk.injEq] at hown
  obtain ⟨_, _, hlocal, hclient⟩ := hown
  rw [hlocal, hclient]
  rfl

/-! ## The keys over edits -/

/-- `ClientHello`s with one nonce have one public key. -/
def OneKey (heard : ClientHello → Prop) : Prop :=
  ∀ hello hello', heard hello → heard hello' → hello.clientNonce = hello'.clientNonce →
    hello.clientPublicKey = hello'.clientPublicKey

theorem HandshakeState.Shares.unique {h : HandshakeState} {publicKey transcript : Bytes}
    {keys keys' : SessionKeys} (hk : h.Shares suite publicKey transcript keys)
    (hk' : h.Shares suite publicKey transcript keys') : keys = keys' := by
  obtain ⟨secret, hsecret, hkeys⟩ := hk
  obtain ⟨secret', hsecret', hkeys'⟩ := hk'
  cases hsecret.symm.trans hsecret'
  cases hkeys.symm.trans hkeys'
  rfl

/-- The packet keys are the session keys, and a server has derived those from a
`ClientHello` it heard. -/
structure View.Keyed (suite : Suite) (heard : ClientHello → Prop) (v : View) : Prop where
  active : ∀ keys, v.keys = some keys → v.handshake.sessionKeys = some keys
  waiting : v.role = .client → v.state = .handshaking ∨ v.state = .idle → v.keys = none
  established : v.state = .established → v.keys.isSome
  derived : v.role = .server → ∀ keys, v.handshake.sessionKeys = some keys →
    ∃ hello, heard hello ∧ v.handshake.peerClientNonce = some hello.clientNonce ∧
      v.handshake.Shares suite hello.clientPublicKey (v.handshake.serverTranscript suite hello) keys

namespace View.Keyed

variable {heard : ClientHello → Prop} {hello : ClientHello} {keys : SessionKeys}

theorem keep (h : v.Keyed suite heard) (hid : v'.identity = v.identity) :
    v'.Keyed suite heard := by
  obtain ⟨hrole, _, hst, _, hhs, hkeys, _⟩ := View.identity_eq hid
  constructor
  · rw [hkeys, hhs]
    exact h.active
  · rw [hrole, hst, hkeys]
    exact h.waiting
  · rw [hst, hkeys]
    exact h.established
  · rw [hrole, hhs]
    exact h.derived

theorem turn (h : v.Keyed suite heard) {st : ConnectionState}
    (hst : st = .closing ∨ st = .closed ∨
      v.state = .idle ∧ st = .handshaking ∧ v.handshake.sessionKeys.isSome) :
    ({ v with state := st } : View).Keyed suite heard := by
  refine ⟨h.active, fun hrole hw => ?_, fun he => ?_, h.derived⟩
  · rcases hst with rfl | rfl | ⟨hidle, rfl, _⟩
    · rcases hw with hw | hw <;> cases hw
    · rcases hw with hw | hw <;> cases hw
    · exact h.waiting hrole (.inr hidle)
  · have he : st = .established := he
    subst he
    rcases hst with h | h | ⟨_, h, _⟩ <;> cases h

/-- The nonce is that of the `ClientHello` the keys come from. -/
theorem nonce (h : v.Keyed suite heard) (hrole : v.role = .server)
    (hnonce : ∀ nonce, v.handshake.peerClientNonce = some nonce → nonce = hello.clientNonce)
    (hkeys : v.handshake.sessionKeys = some keys) :
    ∃ first, heard first ∧ first.clientNonce = hello.clientNonce ∧
      v.handshake.Shares suite first.clientPublicKey (v.handshake.serverTranscript suite first)
        keys := by
  obtain ⟨first, hheard, hfirst, hshares⟩ := h.derived hrole keys hkeys
  exact ⟨first, hheard, hnonce _ hfirst, hshares⟩

theorem hearClient (h : v.Keyed suite heard) (hrole : v.role = .server)
    (hnonce : ∀ nonce, v.handshake.peerClientNonce = some nonce → nonce = hello.clientNonce) :
    (v.hearClient hello).Keyed suite heard := by
  refine ⟨h.active, h.waiting, h.established, fun _ keys hkeys => ?_⟩
  obtain ⟨first, hheard, hfirst, hshares⟩ := h.nonce hrole hnonce hkeys
  exact ⟨first, hheard, congrArg some hfirst.symm, hshares⟩

/-- The keys of a `ClientHello` with the public key heard before are the same. -/
theorem answerClient (h : v.Keyed suite heard) (hone : OneKey heard) (hheard : heard hello)
    (hrole : v.role = .server)
    (hnonce : ∀ nonce, v.handshake.peerClientNonce = some nonce → nonce = hello.clientNonce)
    (hkeys : v.handshake.Shares suite hello.clientPublicKey
      (v.handshake.serverTranscript suite hello) keys) :
    (v.answerClient suite hello keys).Keyed suite heard := by
  have hsame : ∀ keys', v.handshake.sessionKeys = some keys' → keys' = keys := by
    intro keys' hkeys'
    obtain ⟨first, hfirst, heq, hshares⟩ := h.nonce hrole hnonce hkeys'
    have hkey := hone first hello hfirst hheard heq
    have htranscript : v.handshake.serverTranscript suite first =
        v.handshake.serverTranscript suite hello := by
      unfold HandshakeState.serverTranscript
      rw [heq, hkey]
    rw [hkey, htranscript] at hshares
    exact hshares.unique hkeys
  refine ⟨fun keys' hk => ?_, h.waiting, h.established, fun _ keys' hk => ?_⟩
  · exact congrArg some (hsame keys' (h.active keys' hk)).symm
  · cases hk
    exact ⟨hello, hheard, rfl, hkeys⟩

end View.Keyed

theorem Edit.keyed {heard : ClientHello → Prop} (e : Edit suite L k v v')
    (h : v.Keyed suite heard) (hone : v.role = .server → OneKey heard)
    (hheard : ∀ p hello, k = .packet p → p.packetType = .initial →
      .clientHello hello ∈ p.frames → heard hello) :
    v'.Keyed suite heard := by
  cases e with
  | turn st hst => exact h.turn hst
  | hearClient p hello hk htype hf hrole hnonce => exact h.hearClient hrole hnonce
  | answerClient p hello keys hk htype hf hrole hnonce hkeys =>
      exact h.answerClient (hone hrole) (hheard p hello hk htype hf) hrole hnonce hkeys
  | hearServer p hello hk hf hrole hst =>
      refine ⟨h.active, h.waiting, h.established, fun hserver => ?_⟩
      cases hrole.symm.trans hserver
  | answerServer p hello nonce keys hk hf hrole hst =>
      have hnone := h.waiting hrole (.inl hst)
      refine ⟨fun keys' hk' => ?_, h.waiting, h.established, fun hserver => ?_⟩
      · cases hnone.symm.trans hk'
      · cases hrole.symm.trans hserver
  | secure keys hkeys hnone hrole =>
      refine ⟨fun keys' hk' => ?_, fun hclient => ?_, fun _ => rfl, h.derived⟩
      · cases hk'
        exact hkeys
      · cases hrole.symm.trans hclient
  | establish keys hst hkeys hwhy =>
      refine ⟨fun keys' hk' => ?_, fun _ hw => ?_, fun _ => rfl, h.derived⟩
      · cases hk'
        cases hv : v.keys with
        | none => exact hkeys
        | some keys₀ => exact h.active keys₀ hv
      · rcases hw with hw | hw <;> cases hw
  | retry p cookie hk hf hrole hst => exact ⟨h.active, h.waiting, h.established, h.derived⟩
  | retries n => exact ⟨h.active, h.waiting, h.established, h.derived⟩
  | grant p m => exact ⟨h.active, h.waiting, h.established, h.derived⟩
  | read id maxLen s => exact h.keep (v.read_identity id maxLen s)
  | lose n count sp =>
      exact h.keep (View.outward_putBackAll (v.forget n) count sp.frames.reverse).identity
  | drop n count m sp =>
      exact h.keep (View.outward_putBackAll (v.forget n) count (sp.frames.reverse.take m)).identity
  | emit q v₁ sp ht => exact h.keep ((v₁.account_identity q).trans ht.outward.identity)
  | pass q v₁ ht => exact h.keep ((v₁.account_identity q).trans ht.outward.identity)
  | lost q v₁ next hl ht => exact h.keep ht.outward.identity
  | back q v₁ ht => exact h.keep (ht.outward.trans (v₁.outward_putBack _ _)).identity
  | _ => exact h.keep rfl

theorem Edits.keyed {heard : ClientHello → Prop} (h : Edits suite L k v v')
    (hv : v.Keyed suite heard) (hone : v.role = .server → OneKey heard)
    (hheard : ∀ p hello, k = .packet p → p.packetType = .initial →
      .clientHello hello ∈ p.frames → heard hello) :
    v'.Keyed suite heard := by
  induction h with
  | refl => exact hv
  | tail hs e ih =>
      refine e.keyed ih (fun hrole => hone ?_) hheard
      exact (Edits.constant hs).1.symm.trans hrole

/-- The packet keys are chosen once. -/
theorem Edit.keys_stay {keys : SessionKeys} (e : Edit suite L k v v') (h : v.keys = some keys) :
    v'.keys = some keys := by
  have hkeep : ∀ v'' : View, v''.identity = v.identity → v''.keys = some keys := fun v'' hid =>
    (View.identity_eq hid).2.2.2.2.2.1.trans h
  cases e with
  | secure keys hkeys hnone => cases hnone.symm.trans h
  | establish keys hst =>
      dsimp only
      rw [h]
      rfl
  | read id maxLen s => exact hkeep _ (v.read_identity id maxLen s)
  | lose n count sp =>
      exact hkeep _ (View.outward_putBackAll (v.forget n) count sp.frames.reverse).identity
  | drop n count m sp =>
      exact hkeep _ (View.outward_putBackAll (v.forget n) count
        (sp.frames.reverse.take m)).identity
  | emit q v₁ sp ht => exact hkeep _ ((v₁.account_identity q).trans ht.outward.identity)
  | pass q v₁ ht => exact hkeep _ ((v₁.account_identity q).trans ht.outward.identity)
  | lost q v₁ next hl ht => exact hkeep _ ht.outward.identity
  | back q v₁ ht => exact hkeep _ (ht.outward.trans (v₁.outward_putBack _ _)).identity
  | _ => exact h

/-! ## The keys over runs -/

/-- The packet an operation hands to the connection. -/
def delivered (suite : Suite) (c : Connection) : Op → Option Packet
  | .onDatagram packet => some packet
  | .onDatagramBytes bytes => decoded suite bytes c
  | _ => none

theorem cause_packet {op : Op} {p : Packet} (h : cause suite c op = .packet p) :
    delivered suite c op = some p := by
  cases op with
  | onDatagram packet =>
      cases h
      rfl
  | onDatagramBytes bytes =>
      have h : (decoded suite bytes c).elim Cause.other Cause.packet = .packet p := h
      show decoded suite bytes c = some p
      cases hd : decoded suite bytes c with
      | none =>
          rw [hd] at h
          cases h
      | some q =>
          rw [hd] at h
          cases h
          rfl
  | _ => cases h

/-! ## The `ClientHello`s a connection takes -/

/-- `on_datagram` up to `record_received`. -/
def receivePacket (packet : Packet) : ConnM Bool := do
  let c ← get
  if c.state = .closed then throw (.invalidState "receive on closed connection")
  if packet.connectionId ≠ c.id then throw .connectionIdMismatch
  onTimers (scheduleIdle c.config.idleTimeout)
  recordReceived packet

/-- `on_datagram` from there on. -/
def handlePacket (suite : Suite) (packet : Packet) (isNew : Bool) : ConnM Unit := do
  applyAcks packet.frames
  if isNew then processFrames suite packet.packetType packet.frames
  if packet.frames.any Frame.isAckEliciting then scheduleAck
  flush

theorem onDatagram_eq (packet : Packet) :
    onDatagram suite packet = receivePacket packet >>= handlePacket suite packet := by
  unfold onDatagram receivePacket handlePacket
  simp only [bind_assoc]
  refine bind_congr fun c => ?_
  split
  · rfl
  · split
    · rfl
    · rw [bind_assoc]

/-- The `ClientHello`s that `receive_client_hello` takes while `process_frame` goes through
the frames. -/
def heardFrames (suite : Suite) (packetType : PacketType) (c : Connection) :
    List Frame → List ClientHello
  | [] => []
  | frame :: rest =>
      (match frame with
        | .clientHello hello =>
            if (answer (receiveClientHello suite packetType hello) c).isSome then [hello] else []
        | _ => []) ++
        match processFrame suite packetType frame c with
        | .ok _ c' => heardFrames suite packetType c' rest
        | .error _ _ => []

/-- Those of a packet, which has frames processed only if it is new. -/
def heardPacket (suite : Suite) (packet : Packet) (c : Connection) : List ClientHello :=
  match receivePacket packet c with
  | .ok true c₁ =>
      match applyAcks packet.frames c₁ with
      | .ok _ c₂ => heardFrames suite packet.packetType c₂ packet.frames
      | .error _ _ => []
  | _ => []

def Op.heard (suite : Suite) (c : Connection) : Op → List ClientHello
  | .onDatagram packet => heardPacket suite packet c
  | .onDatagramBytes bytes =>
      match decodeDatagram suite bytes c with
      | .ok packet c' => heardPacket suite packet c'
      | .error _ _ => []
  | _ => []

/-- The `ClientHello`s that `receive_client_hello` takes in a run. -/
def heard (suite : Suite) (c : Connection) : List Op → List ClientHello
  | [] => []
  | op :: ops => op.heard suite c ++ heard suite (after (perform suite op) c) ops

section Hearing

variable {known : ClientHello → Prop} {α : Type}

/-- A connection of the role whose keys are in order. -/
structure Connection.Keyed (suite : Suite) (known : ClientHello → Prop) (role : ConnectionRole)
    (c : Connection) : Prop where
  role : c.role = role
  view : c.view.Keyed suite known

/-- Whichever way `m` ends, the keys are in order. -/
abbrev KeepsKeyed (suite : Suite) (known : ClientHello → Prop) (role : ConnectionRole)
    (m : ConnM α) (c : Connection) : Prop :=
  Ends m c (fun _ => Connection.Keyed suite known role) fun _ => Connection.Keyed suite known role

variable {role : ConnectionRole}

theorem Connection.Keyed.does (h : c.Keyed suite known role) (hone : role = .server → OneKey known)
    {m : ConnM α} (hm : Does suite k m c)
    (hknown : ∀ p hello, k = .packet p → p.packetType = .initial →
      .clientHello hello ∈ p.frames → known hello) : KeepsKeyed suite known role m c := by
  have hafter : ∀ {L} {c' : Connection}, Edits suite L k c.view c'.view →
      c'.Keyed suite known role := fun hedits =>
    ⟨hedits.constant.1.trans h.role,
      hedits.keyed h.view (fun hserver => hone (h.role.symm.trans hserver)) hknown⟩
  exact Ends.mono hm (fun _ _ => hafter) fun _ _ => hafter

/-- One frame. Only a `ClientHello` that is taken can change the keys. -/
theorem processFrame_keyed (h : c.Keyed suite known role) (hone : role = .server → OneKey known)
    {packetType : PacketType} {frame : Frame}
    (hknown : ∀ hello, frame = .clientHello hello →
      (answer (receiveClientHello suite packetType hello) c).isSome → known hello) :
    KeepsKeyed suite known role (processFrame suite packetType frame) c := by
  have hdoes : Does suite (.packet ⟨packetType, .empty, 0, 0, [frame]⟩)
      (processFrame suite packetType frame) c :=
    processFrame_does suite (p := ⟨packetType, .empty, 0, 0, [frame]⟩) List.mem_cons_self
  by_cases htaken : ∀ hello, frame = .clientHello hello →
      (answer (receiveClientHello suite packetType hello) c).isSome
  · refine h.does hone hdoes fun p hello hp _ hf => ?_
    cases hp
    have hframe : frame = .clientHello hello := (List.mem_singleton.1 hf).symm
    exact hknown hello hframe (htaken hello hframe)
  · -- a `ClientHello` that is refused leaves its nonce at most
    obtain ⟨hello, rfl, hrefused⟩ : ∃ hello, frame = .clientHello hello ∧
        ¬ (answer (receiveClientHello suite packetType hello) c).isSome := by
      simpa only [not_forall, exists_prop] using htaken
    show KeepsKeyed suite known role (processClientHello suite packetType hello) c
    simp only [KeepsKeyed, processClientHello, ends_bind]
    refine Ends.mono (Ends.and (receiveClientHello_ends suite packetType hello)
      (Ends.run (receiveClientHello suite packetType hello) c)) (fun r c' hout => ?_)
      fun _ c' hout => ?_
    · rw [answer, hout.2] at hrefused
      exact absurd rfl hrefused
    · rcases hout.1 with hsame | ⟨hrole, -, hnonce, hhear⟩
      · exact ⟨(congrArg View.role hsame).trans h.role, hsame ▸ h.view⟩
      · refine ⟨(congrArg View.role hhear).trans h.role, ?_⟩
        rw [hhear]
        exact h.view.hearClient hrole hnonce

theorem processFrames_keyed (h : c.Keyed suite known role) (hone : role = .server → OneKey known)
    {packetType : PacketType} (frames : List Frame)
    (hknown : ∀ hello ∈ heardFrames suite packetType c frames, known hello) :
    KeepsKeyed suite known role (processFrames suite packetType frames) c := by
  induction frames generalizing c with
  | nil => exact h
  | cons frame rest ih =>
      have hframe : KeepsKeyed suite known role (processFrame suite packetType frame) c := by
        refine processFrame_keyed h hone fun hello heq htaken =>
          hknown hello (List.mem_append_left _ ?_)
        subst heq
        simp only [htaken, if_true, List.mem_singleton]
      have hrest : ∀ c', processFrame suite packetType frame c = .ok () c' →
          ∀ hello ∈ heardFrames suite packetType c' rest, known hello := by
        intro c' hrun hello hmem
        refine hknown hello (List.mem_append_right _ ?_)
        rw [hrun]
        exact hmem
      simp only [KeepsKeyed, processFrames, ends_ite, ends_bind]
      refine ⟨fun _ => ?_, fun hack => ih h (hrest c ?_)⟩
      · exact Ends.mono (Ends.and hframe (Ends.run (processFrame suite packetType frame) c))
          (fun _ c' hout => ih hout.1 (hrest c' hout.2)) fun _ _ hout => hout.1
      · -- an ACK frame is passed over
        cases frame with
        | ack => rfl
        | _ => exact absurd rfl hack

theorem onDatagram_keyed (h : c.Keyed suite known role) (hone : role = .server → OneKey known)
    {p : Packet} (hknown : ∀ hello ∈ heardPacket suite p c, known hello) :
    KeepsKeyed suite known role (onDatagram suite p) c := by
  have hreceive : KeepsKeyed suite known role (receivePacket p) c := by
    refine h.does (k := .packet { p with frames := [] }) hone ?_ fun q hello hq _ hf => ?_
    · simp only [receivePacket]
      rw [Does, ends_bind, ends_get]
      exact Does.ite (fun _ => .refl) fun _ => Does.ite (fun _ => .refl) fun _ =>
        Does.bind Does.onTimers fun _ _ _ => recordReceived_does { p with frames := [] }
    · cases hq
      exact absurd hf List.not_mem_nil
  rw [onDatagram_eq, KeepsKeyed, ends_bind]
  refine Ends.mono (Ends.and hreceive (Ends.run (receivePacket p) c)) (fun isNew c₁ hout => ?_)
    fun _ _ hout => hout.1
  obtain ⟨h₁, hrun₁⟩ := hout
  -- applying the ACKs has nothing to do with the keys
  have hacks : KeepsKeyed suite known role (applyAcks p.frames) c₁ :=
    h₁.does hone (applyAcks_does (p := { p with packetType := .data }) p.frames fun _ hf => hf)
      fun q _ hq htype => by cases hq; cases htype
  have hend : ∀ {c₂ : Connection}, c₂.Keyed suite known role → KeepsKeyed suite known role (do
      if p.frames.any Frame.isAckEliciting then scheduleAck
      flush) c₂ := fun h₂ =>
    h₂.does (k := .other) hone (acknowledge_does p) fun _ _ hq => by cases hq
  simp only [handlePacket]
  rw [ends_bind]
  refine Ends.mono (Ends.and hacks (Ends.run (applyAcks p.frames) c₁)) (fun _ c₂ hout => ?_)
    fun _ _ hout => hout.1
  rw [ends_ite]
  refine ⟨fun hnew => ?_, fun _ => hend hout.1⟩
  rw [ends_bind]
  refine Ends.mono (processFrames_keyed hout.1 hone p.frames fun hello hmem => hknown hello ?_)
    (fun _ _ h₃ => hend h₃) fun _ _ h₃ => h₃
  subst hnew
  simpa only [heardPacket, hrun₁, hout.2] using hmem

end Hearing

/-- The packet keys, where there are any, are the session keys. -/
def Connection.KeysAgree (c : Connection) : Prop :=
  ∀ crypto, c.packetCrypto = some crypto → c.handshake.sessionKeys = some crypto.keys

/-- In every state of a run the packet keys are the session keys, and from the
first Established state on both stay. -/
def OneKeyPerConnection (suite : Suite) (c : Connection) (ops : List Op) : Prop :=
  ∀ before rest, ops = before ++ rest →
    (final suite c before).KeysAgree ∧
      ((final suite c before).state = .established →
        (final suite c ops).packetCrypto.map (·.keys) =
          (final suite c before).packetCrypto.map (·.keys) ∧
        (final suite c ops).handshake.sessionKeys = (final suite c before).handshake.sessionKeys)

theorem perform_role (suite : Suite) (op : Op) (c : Connection) :
    (after (perform suite op) c).role = c.role := (perform_edits suite op c).constant.1

theorem final_role (suite : Suite) (c : Connection) (ops : List Op) :
    (final suite c ops).role = c.role :=
  final_keeps suite (I := fun d => d.role = c.role) ops rfl
    fun d op h => (perform_role suite op d).trans h

theorem perform_keyed {known : ClientHello → Prop} {role : ConnectionRole}
    (h : c.Keyed suite known role) (hone : role = .server → OneKey known) (op : Op)
    (hknown : ∀ hello ∈ op.heard suite c, known hello) :
    (after (perform suite op) c).Keyed suite known role := by
  have hother : (∀ p, cause suite c op ≠ .packet p) →
      KeepsKeyed suite known role (perform suite op) c := fun hcause =>
    h.does hone (perform_does suite op) fun p _ hp => absurd hp (hcause p)
  refine Ends.after ?_
  cases op with
  | onDatagram p =>
      show KeepsKeyed suite known role (onDatagram suite p >>= fun _ => pure Reply.done) c
      rw [KeepsKeyed, ends_bind]
      exact onDatagram_keyed h hone hknown
  | onDatagramBytes bytes =>
      show KeepsKeyed suite known role
        ((decodeDatagram suite bytes >>= onDatagram suite) >>= fun _ => pure Reply.done) c
      simp only [KeepsKeyed, ends_bind]
      refine Ends.mono (Ends.and (decodeDatagram_ends suite bytes)
        (Ends.run (decodeDatagram suite bytes) c)) (fun p c' hout => ?_) fun _ c' hout => ?_
      · obtain ⟨hview, hrun⟩ := hout
        have h' : c'.Keyed suite known role :=
          ⟨(congrArg View.role hview).trans h.role, hview.symm ▸ h.view⟩
        refine onDatagram_keyed h' hone fun hello hmem => hknown hello ?_
        simpa only [Op.heard, hrun] using hmem
      · exact ⟨(congrArg View.role hout.1).trans h.role, hout.1.symm ▸ h.view⟩
  | _ => exact hother fun _ hp => by cases hp

theorem final_keyed {known : ClientHello → Prop} {role : ConnectionRole} (ops : List Op)
    (h : c.Keyed suite known role) (hone : role = .server → OneKey known)
    (hknown : ∀ hello ∈ heard suite c ops, known hello) :
    (final suite c ops).Keyed suite known role := by
  induction ops generalizing c with
  | nil => exact h
  | cons op ops ih =>
      rw [final_cons]
      have hop := perform_keyed h hone op fun hello hmem =>
        hknown hello (List.mem_append_left _ hmem)
      exact ih hop fun hello hmem => hknown hello (List.mem_append_right _ hmem)

theorem Edits.keys_stay {keys : SessionKeys} (h : Edits suite L k v v') (hv : v.keys = some keys) :
    v'.keys = some keys := by
  induction h with
  | refl => exact hv
  | tail _ e ih => exact e.keys_stay ih

theorem final_keys_stay {keys : SessionKeys} (ops : List Op) (h : c.view.keys = some keys) :
    (final suite c ops).view.keys = some keys :=
  final_keeps suite (I := fun d => d.view.keys = some keys) ops h
    fun d op hd => (perform_edits suite op d).keys_stay hd

theorem mem_heard_append {before rest : List Op} {hello : ClientHello}
    (h : hello ∈ heard suite c before) : hello ∈ heard suite c (before ++ rest) := by
  induction before generalizing c with
  | nil => cases h
  | cons op ops ih =>
      rcases List.mem_append.1 h with h | h
      · exact List.mem_append_left _ h
      · exact List.mem_append_right _ (ih h)

theorem initial_keyed (suite : Suite) (role : ConnectionRole) {id : Nat}
    {config : ConnectionConfig} {handshake : HandshakeState} (hunused : handshake.Unused id config)
    (known : ClientHello → Prop) :
    (View.initial suite role id config handshake).Keyed suite known := by
  obtain ⟨keyPair, nonce, rfl⟩ := hunused
  cases role with
  | client => exact ⟨nofun, fun _ _ => rfl, nofun, nofun⟩
  | server => exact ⟨nofun, fun _ _ => rfl, nofun, nofun⟩

theorem fresh_keyed {role : ConnectionRole} {config : ConnectionConfig}
    (h : Fresh suite role config c) {known : ClientHello → Prop}
    (hone : role = .server → OneKey known) : c.view.Keyed suite known := by
  obtain ⟨_, id, handshake, hunused, hedits⟩ := fresh_edits h
  refine hedits.keyed (initial_keyed suite role hunused known) hone fun p hello hk => ?_
  cases hk

theorem fresh_role {role : ConnectionRole} {config : ConnectionConfig}
    (h : Fresh suite role config c) : c.role = role := by
  obtain ⟨_, id, handshake, _, hedits⟩ := fresh_edits h
  exact hedits.constant.1

/-- Over a run in which `ClientHello`s with one nonce have one public key, a
connection has one key. -/
theorem one_key_of_one_public_key (suite : Suite) {role : ConnectionRole}
    {config : ConnectionConfig} {c : Connection} (hfresh : Fresh suite role config c)
    (ops : List Op) (hone : role = .server → OneKey (· ∈ heard suite c ops)) :
    OneKeyPerConnection suite c ops := by
  have hkeyed : c.Keyed suite (· ∈ heard suite c ops) role :=
    ⟨fresh_role hfresh, fresh_keyed hfresh hone⟩
  rintro before rest rfl
  have hbefore := (final_keyed before hkeyed hone fun hello hmem => mem_heard_append hmem).view
  have hafter := (final_keyed (before ++ rest) hkeyed hone fun hello hmem => hmem).view
  refine ⟨fun crypto hcrypto => hbefore.active crypto.keys ?_, fun hst => ?_⟩
  · show (final suite c before).packetCrypto.map (·.keys) = some crypto.keys
    rw [hcrypto]
    rfl
  · obtain ⟨keys, hkeys⟩ := Option.isSome_iff_exists.1 (hbefore.established hst)
    have hlater : (final suite c (before ++ rest)).view.keys = some keys := by
      rw [final_append]
      exact final_keys_stay rest hkeys
    constructor
    · exact hlater.trans hkeys.symm
    · exact (hafter.active keys hlater).trans (hbefore.active keys hkeys).symm

theorem one_key_of_one_public_key_exchange : ∃ c, Fresh sampleSuite .server {} c ∧
    OneKeyPerConnection sampleSuite c (samplePackets.map .onDatagram) := by
  obtain ⟨c, hc, hp⟩ := of_checks (r := sampleConnection .server {})
    (p := fun c => (heard sampleSuite c (samplePackets.map .onDatagram)).length == 1)
    (by decide +kernel)
  obtain ⟨hello, hlist⟩ := List.length_eq_one_iff.1 (beq_iff_eq.1 hp)
  refine ⟨c, sampleConnection_fresh hc, one_key_of_one_public_key sampleSuite
    (sampleConnection_fresh hc) _ fun _ first second hfirst hsecond _ => ?_⟩
  rw [hlist, List.mem_singleton] at hfirst hsecond
  rw [hfirst, hsecond]

/-- A `ClientHello` with the nonce of the sample exchange and another public
key. -/
def otherHello : Packet :=
  ⟨.initial, ⟨ackElicitingFlag⟩, 7, 2,
    [.clientHello ⟨List.replicate 16 3, sampleSuite.publicKey (List.replicate 32 5), 1200, 64,
      4 * 1024 * 1024, 1024 * 1024, []⟩]⟩

/-- An established server that gets it has other session keys than packet keys. -/
theorem other_public_key_separates_keys : ∃ c, Fresh sampleSuite .server {} c ∧
    (final sampleSuite c ((samplePackets.take 2).map .onDatagram)).state = .established ∧
      ¬ OneKeyPerConnection sampleSuite c
        (((samplePackets.take 2) ++ [otherHello]).map .onDatagram) := by
  obtain ⟨c, hc, hp⟩ := of_checks (r := sampleConnection .server {})
    (p := fun c =>
      (final sampleSuite c ((samplePackets.take 2).map .onDatagram)).state == .established &&
      (final sampleSuite c (((samplePackets.take 2) ++ [otherHello]).map
        .onDatagram)).handshake.sessionKeys !=
      (final sampleSuite c ((samplePackets.take 2).map .onDatagram)).handshake.sessionKeys)
    (by decide +kernel)
  simp only [Bool.and_eq_true, beq_iff_eq, bne_iff_ne] at hp
  refine ⟨c, sampleConnection_fresh hc, hp.1, fun h => hp.2 ?_⟩
  exact ((h _ [.onDatagram otherHello] (by rw [List.map_append]; rfl)).2 hp.1).2

/-! ## What the Finished tag binds -/

/-- The tag of a `ServerHello` is the one of the keys it leads to, over the
transcript of the connection id, the nonces and the public keys. -/
def HandshakeState.Finishes (suite : Suite) (h : HandshakeState) (hello : ServerHello) : Prop :=
  ∃ keys, h.Shares suite hello.serverPublicKey (h.clientTranscript suite h.localNonce hello) keys ∧
    hello.serverFinished =
      keys.finishedTag suite .server (h.clientTranscript suite h.localNonce hello)

/-- What a client has agreed on once it has taken a `ServerHello`. -/
def Connection.Negotiated (before after : Connection) (hello : ServerHello) : Prop :=
  after.state = .established ∧
    after.config.maxDatagramSize = min before.config.maxDatagramSize hello.maxDatagramSize ∧
    after.handshake.peerMaxStreams = min before.handshake.peerMaxStreams hello.maxStreams ∧
    after.handshake.peerInitialStreamWindow = hello.initialStreamWindow ∧
    after.connectionSend.connectionMaxOffset = hello.initialConnectionWindow ∧
    after.handshake.peerCookie = hello.cookie

theorem verifyFinished_ok_iff {keys : SessionKeys} {role : CryptoRole} {transcript tag : Bytes} :
    keys.verifyFinished suite role transcript tag = .ok () ↔
      tag = keys.finishedTag suite role transcript := by
  unfold SessionKeys.verifyFinished
  split
  · next h => exact ⟨nofun, fun heq => absurd heq.symm h⟩
  · next h => exact ⟨fun _ => (not_not.1 h).symm, fun _ => rfl⟩

/-- `process_frame` on a `ServerHello`, for a client that waits for one. -/
theorem processServerHello_ends (hrole : c.role = .client) (hst : c.state = .handshaking)
    (hnonce : c.handshake.clientNonce = some c.handshake.localNonce) (hello : ServerHello) :
    Ends (processServerHello suite .handshake hello) c
      (fun _ c' => c.handshake.Finishes suite hello ∧ c.Negotiated c' hello)
      fun _ _ => ¬ c.handshake.Finishes suite hello := by
  simp only [processServerHello, receiveServerHello, ends_steps, ends_modifyHandshake, hnonce]
  refine ⟨fun h => ?_, fun _ => ?_⟩
  · simp [hrole, hst] at h
  · simp only [ends_ofExcept]
    refine ⟨fun secret hsecret => ⟨fun keys hkeys => ⟨fun _ hver => ?_, fun e hver => ?_⟩,
      fun e hkeys => ?_⟩, fun e hsecret => ?_⟩
    · have htag := verifyFinished_ok_iff.1 hver
      refine Ends.mono (activateCrypto_established rfl) (fun _ c' h => ?_)
        fun _ _ h => h.elim
      refine ⟨⟨keys, ⟨secret, hsecret, hkeys⟩, htag⟩, congrArg View.state h, ?_, ?_, ?_, ?_, ?_⟩
      · exact congrArg (·.config.maxDatagramSize) h
      · exact congrArg (·.handshake.peerMaxStreams) h
      · exact congrArg (·.handshake.peerInitialStreamWindow) h
      · exact congrArg (·.send.connectionMaxOffset) h
      · exact congrArg (·.handshake.peerCookie) h
    · rintro ⟨keys', hshares, htag⟩
      cases hshares.unique ⟨secret, hsecret, hkeys⟩
      cases hver.symm.trans (verifyFinished_ok_iff.2 htag)
    · rintro ⟨keys', ⟨secret', hsecret', hkeys'⟩, _⟩
      cases hsecret.symm.trans hsecret'
      cases hkeys.symm.trans hkeys'
    · rintro ⟨keys', ⟨secret', hsecret', _⟩, _⟩
      cases hsecret.symm.trans hsecret'

/-- A client takes a `ServerHello`. -/
def Accepts (suite : Suite) (c : Connection) (hello : ServerHello) : Prop :=
  (answer (processFrame suite .handshake (.serverHello hello)) c).isSome

/-- Of a `ServerHello`, the Finished tag binds the connection id, the nonces and
the public keys. A client that waits takes the message exactly when the tag fits
these, whatever the negotiated fields say, and then uses them as they came. -/
theorem finished_binds_nonces_and_keys (suite : Suite) {config : ConnectionConfig} {c : Connection}
    (hfresh : Fresh suite .client config c) (ops : List Op)
    (hwait : (final suite c ops).state = .handshaking) (hello : ServerHello) :
    (Accepts suite (final suite c ops) hello ↔
        (final suite c ops).handshake.Finishes suite hello) ∧
      (∀ altered : ServerHello, altered.serverNonce = hello.serverNonce →
        altered.serverPublicKey = hello.serverPublicKey →
        altered.serverFinished = hello.serverFinished →
        (Accepts suite (final suite c ops) altered ↔ Accepts suite (final suite c ops) hello)) ∧
      (Accepts suite (final suite c ops) hello →
        (final suite c ops).Negotiated
          (after (processFrame suite .handshake (.serverHello hello)) (final suite c ops))
          hello) := by
  have hrole : (final suite c ops).role = .client :=
    (final_role suite c ops).trans (fresh_role hfresh)
  have hends : ∀ hello, Ends (processFrame suite .handshake (.serverHello hello))
      (final suite c ops) (fun _ c' => (final suite c ops).handshake.Finishes suite hello ∧
        (final suite c ops).Negotiated c' hello)
      fun _ _ => ¬ (final suite c ops).handshake.Finishes suite hello :=
    processServerHello_ends hrole hwait (client_nonce hfresh ops)
  have hiff : ∀ hello, Accepts suite (final suite c ops) hello ↔
      (final suite c ops).handshake.Finishes suite hello :=
    fun hello => Ends.isSome_answer_iff ((hends hello).mono (fun _ _ h => h.1) fun _ _ h => h)
  refine ⟨hiff hello, fun altered hnonce hkey htag => ?_, fun h => ?_⟩
  · rw [hiff, hiff]
    unfold HandshakeState.Finishes HandshakeState.clientTranscript
    rw [hnonce, hkey, htag]
  · obtain ⟨a, ha⟩ := Option.isSome_iff_exists.1 h
    exact ((hends hello).answer ha).2

/-- What the server of the sample exchange answers. -/
def sampleServerHello : ServerHello where
  serverNonce := List.replicate 16 4
  serverPublicKey := sampleSuite.publicKey (List.replicate 32 2)
  serverFinished := beBytes 16 0x773788e51b7eea251c4f97da6ee93948
  maxDatagramSize := 1200
  maxStreams := 64
  initialConnectionWindow := 4 * 1024 * 1024
  initialStreamWindow := 1024 * 1024
  cookie := []

/-- It with all that is negotiated altered. -/
def alteredServerHello : ServerHello :=
  { sampleServerHello with
    maxDatagramSize := 100
    maxStreams := 1
    initialConnectionWindow := 2
    initialStreamWindow := 3
    cookie := [4] }

theorem finished_binds_nonces_and_keys_sample : ∃ c, Fresh sampleSuite .client {} c ∧
    c.Negotiated (after (processFrame sampleSuite .handshake (.serverHello sampleServerHello)) c)
      sampleServerHello := by
  obtain ⟨c, hc, hp⟩ := of_checks (r := sampleConnection .client {})
    (p := fun c => c.state == .handshaking &&
      (answer (processFrame sampleSuite .handshake (.serverHello sampleServerHello)) c).isSome)
    (by decide +kernel)
  simp only [Bool.and_eq_true, beq_iff_eq] at hp
  exact ⟨c, sampleConnection_fresh hc, (finished_binds_nonces_and_keys sampleSuite
    (sampleConnection_fresh hc) [] hp.1 sampleServerHello).2.2 hp.2⟩

/-- The server answers the client, all the negotiated fields of the answer are
altered on the way, and the client takes it. -/
theorem altered_negotiation_is_accepted : ∃ c s, Fresh sampleSuite .client {} c ∧
    Fresh sampleSuite .server {} s ∧ c.state = .handshaking ∧
    (∃ hello ∈ packetsOf c.output, ∃ reply ∈
      packetsOf (final sampleSuite s [.onDatagram hello]).output,
      reply.frames = [.serverHello sampleServerHello]) ∧
    Accepts sampleSuite c alteredServerHello := by
  obtain ⟨c, hc, hp⟩ := of_checks (r := sampleConnection .client {})
    (p := fun c => c.state == .handshaking && samplePackets[0] ∈ packetsOf c.output &&
      (answer (processFrame sampleSuite .handshake (.serverHello alteredServerHello)) c).isSome)
    (by decide +kernel)
  obtain ⟨s, hs, hq⟩ := of_checks (r := sampleConnection .server {})
    (p := fun s => (packetsOf (final sampleSuite s [.onDatagram samplePackets[0]]).output).any
      (·.frames = [.serverHello sampleServerHello]))
    (by decide +kernel)
  simp only [Bool.and_eq_true, beq_iff_eq, decide_eq_true_eq] at hp
  obtain ⟨reply, hreply, hframes⟩ := List.any_eq_true.1 hq
  exact ⟨c, s, sampleConnection_fresh hc, sampleConnection_fresh hs, hp.1.1,
    ⟨_, hp.1.2, reply, hreply, of_decide_eq_true hframes⟩, hp.2⟩

end DartUdp.Core
