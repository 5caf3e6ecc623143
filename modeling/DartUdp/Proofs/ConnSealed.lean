import DartUdp.Proofs.CodecSealed
import DartUdp.Proofs.ConnKeys
import DartUdp.Proofs.ConnNumbers
import DartUdp.Proofs.ConnStages

/-!
# Stream data is sealed on its way out

Stream data is taken off streams only, and there are streams only where a
connection was established once. From then on it has keys and is never in the
handshake again, so stream data goes out in packets of type Data, which are
encrypted for as long as the connection is not closed.

What decides is the state in which a packet is encoded, though, not the one in
which it was made. A connection that has closed encodes what it still sends, or
has not handed out yet, in clear.

The module is for `stream_data_sealed_iff`. `Edit.guarded` keeps what the first
paragraph says, `encode_open` and `encode_closed` encode such a packet in the two
kinds of states, and `seals_iff` compares the outcomes.
-/

namespace DartUdp.Udp

open DartUdp.Lib

variable {packetType : PacketType} {flags : PacketFlags} {id number limit : Nat} {payload : Bytes}

theorem beBytes_mod (n v : Nat) : beBytes n (v % 256 ^ n) = beBytes n v := by
  have h := beBytes_ofBe (beBytes n v)
  rwa [length_beBytes, ofBe_beBytes] at h

/-- The flags that a datagram was made with can be seen from outside. -/
theorem peekPacketFlags_stamped (hbits : flags.bits < 2 ^ 16)
    (hknown : PacketFlags.fromBits flags.bits = .ok flags) (hpayload : payload.length < 2 ^ 16)
    (hlimit : fixedHeaderLen + payload.length ≤ limit) :
    peekPacketFlags
      (stamp (datagram packetType flags id number payload.length [0, 0, 0, 0] payload)) limit =
        .ok flags := by
  have hmod : ∀ v, beBytes 8 (v % 2 ^ 64) = beBytes 8 v := beBytes_mod 8
  have hsame : datagram packetType flags (id % 2 ^ 64) (number % 2 ^ 64) payload.length
      [0, 0, 0, 0] payload =
        datagram packetType flags id number payload.length [0, 0, 0, 0] payload := by
    simp only [datagram, hmod]
  obtain ⟨header, hheader, _, _, hflags, _⟩ := stamped_header hbits
    hknown (Nat.mod_lt id (by decide)) (Nat.mod_lt number (by decide)) hpayload hlimit rfl
  rw [hsame] at hheader
  rw [peekPacketFlags, bind_of_ok hheader, hflags]
  rfl

/-- What is sealed has room for the tag. -/
theorem encodePacketWithCrypto_inv {suite : Suite} {p : Packet} {bytes : Bytes}
    {crypto : PacketCrypto} (h : encodePacketWithCrypto suite p limit crypto = .ok bytes) :
    ∃ payload, encodeFrames p = .ok payload ∧
      fixedHeaderLen + payload.length + aeadTagLen ≤ limit := by
  obtain ⟨_, h⟩ := ok_of_guard h
  obtain ⟨payload, hpayload, h⟩ := ok_of_bind h
  obtain ⟨_, h⟩ := ok_of_guard h
  obtain ⟨_, _, h⟩ := ok_of_bind h
  refine ⟨payload, hpayload, ?_⟩
  dsimp only at h
  split at h
  · cases h
  · next ciphertext hseal =>
      obtain ⟨_, hsize, _⟩ := ok_of_bind h
      have hmax := Nat.not_lt.1 (ok_of_guard hsize).1
      unfold PacketCrypto.sealPacket at hseal
      split at hseal
      · next text tag hencrypt =>
          cases hseal
          obtain ⟨htext, htag⟩ := suite.encrypt_length hencrypt
          have hlength := length_datagram p.packetType (p.flags.bitor encryptedFlag) p.connectionId
            p.packetNumber (payload.length + aeadTagLen) (text ++ tag)
            (show ([0, 0, 0, 0] : Bytes).length = 4 from rfl)
          rw [headerBytes_append, hlength, List.length_append, htext, htag] at hmax
          omega
      · cases hseal

end DartUdp.Udp

namespace DartUdp.Core

open DartUdp.Lib DartUdp.Udp

variable {suite : Suite} {L : Prop} {k : Cause} {v v' : View} {c : Connection}

/-- The packet has stream data in it. -/
def CarriesData (p : Packet) : Prop := ∃ d, .streamData d ∈ p.frames

/-! ## Where there are streams -/

/-- What an edit can do to the state and the keys: the state turns, keys are chosen,
or both stay. -/
theorem Edit.stage (e : Edit suite L k v v') :
    v'.keys = v.keys ∧ (v'.state = v.state ∨ v'.state = .closing ∨ v'.state = .closed ∨
        v.state = .idle ∧ v'.state = .handshaking) ∨
      v'.keys.isSome ∧ (v'.state = v.state ∨ v.state = .handshaking ∧ v'.state = .established) := by
  have hkeep : ∀ v'' : View, v''.identity = v.identity →
      v''.keys = v.keys ∧ (v''.state = v.state ∨ v''.state = .closing ∨ v''.state = .closed ∨
        v.state = .idle ∧ v''.state = .handshaking) := by
    intro v'' hid
    obtain ⟨_, _, hst, _, _, hkeys, _⟩ := View.identity_eq hid
    exact ⟨hkeys, .inl hst⟩
  cases e with
  | turn st hst =>
      rcases hst with rfl | rfl | ⟨hst, rfl, _⟩
      · exact .inl ⟨rfl, .inr (.inl rfl)⟩
      · exact .inl ⟨rfl, .inr (.inr (.inl rfl))⟩
      · exact .inl ⟨rfl, .inr (.inr (.inr ⟨hst, rfl⟩))⟩
  | secure keys => exact .inr ⟨rfl, .inl rfl⟩
  | establish keys hst => exact .inr ⟨rfl, .inr ⟨hst, rfl⟩⟩
  | read id maxLen s => exact .inl (hkeep _ (v.read_identity id maxLen s))
  | lose n count sp =>
      exact .inl (hkeep _ (View.outward_putBackAll (v.forget n) count sp.frames.reverse).identity)
  | drop n count m sp =>
      exact .inl (hkeep _ (View.outward_putBackAll (v.forget n) count
        (sp.frames.reverse.take m)).identity)
  | emit q v₁ sp ht => exact .inl (hkeep _ ((v₁.account_identity q).trans ht.outward.identity))
  | pass q v₁ ht => exact .inl (hkeep _ ((v₁.account_identity q).trans ht.outward.identity))
  | lost q v₁ next hl ht => exact .inl (hkeep _ ht.outward.identity)
  | back q v₁ ht =>
      exact .inl (hkeep _ (ht.outward.trans (v₁.outward_putBack _ _)).identity)
  | _ => exact .inl ⟨rfl, .inl rfl⟩

/-- The connection has keys and has left the handshake. -/
def View.Keeper (v : View) : Prop :=
  v.keys.isSome ∧ v.state ≠ .idle ∧ v.state ≠ .handshaking

/-- It does not go back. -/
theorem Edit.keeper (e : Edit suite L k v v') (h : v.Keeper) : v'.Keeper := by
  obtain ⟨hkeys, hidle, hhandshaking⟩ := h
  have hleft : ∀ {st : ConnectionState}, st = v.state ∨ st = .closing ∨ st = .closed →
      st ≠ .idle ∧ st ≠ .handshaking := by
    rintro st (rfl | rfl | rfl)
    · exact ⟨hidle, hhandshaking⟩
    · exact ⟨nofun, nofun⟩
    · exact ⟨nofun, nofun⟩
  rcases e.stage with ⟨hk, hst⟩ | ⟨hk, hst⟩
  · refine ⟨hk ▸ hkeys, hleft ?_⟩
    rcases hst with hst | hst | hst | ⟨hst, _⟩
    · exact .inl hst
    · exact .inr (.inl hst)
    · exact .inr (.inr hst)
    · exact absurd hst hidle
  · refine ⟨hk, hleft ?_⟩
    rcases hst with hst | ⟨hst, _⟩
    · exact .inl hst
    · exact absurd hst hhandshaking

/-- An established connection has keys. -/
theorem Edit.established_keys (e : Edit suite L k v v')
    (h : v.state = .established → v.keys.isSome) (hst : v'.state = .established) :
    v'.keys.isSome := by
  rcases e.stage with ⟨hk, hsame | hturn | hturn | ⟨_, hturn⟩⟩ | ⟨hk, _⟩
  · rw [hk]
    exact h (hsame.symm.trans hst)
  · cases hturn.symm.trans hst
  · cases hturn.symm.trans hst
  · cases hturn.symm.trans hst
  · exact hk

theorem View.Outward.isSome (h : v.Outward v') {id : Nat} :
    (v'.streams id).isSome ↔ (v.streams id).isSome := by
  rw [Option.isSome_iff_ne_none, Option.isSome_iff_ne_none, Ne, Ne, h.unknown]

/-- A stream is made on an established connection only. -/
theorem Edit.streams_new (e : Edit suite L k v v') {id : Nat} (h : (v'.streams id).isSome) :
    (v.streams id).isSome ∨ v.state = .established := by
  have hput : ∀ {i : Nat} {s s' : StreamRecord}, v.streams i = some s →
      ((v.put i s').streams id).isSome → (v.streams id).isSome := by
    intro i s s' hs hsome
    by_cases hi : id = i
    · rw [hi, hs]
      rfl
    · rwa [View.put_of_ne hi] at hsome
  cases e with
  | opened i hk hst => exact .inr hst
  | accept p o hk hf hst => exact .inr hst
  | write i data fin s mb mc n send hk hst hs => exact .inr hst
  | read i maxLen s hk hs =>
      obtain ⟨_, _, _, heq⟩ := v.read_eq i maxLen s
      rw [heq] at h
      exact .inl (hput hs h)
  | insert p d s newBytes n recv hk hf hst => exact .inr hst
  | reject p d s e recv hl hk hf hs => exact .inl (hput hs h)
  | finish i s hs => exact .inl (hput hs h)
  | limit p u s hk hf hs => exact .inl (hput hs h)
  | reset p r s hk hf hs => exact .inl (hput hs h)
  | lose n count sp =>
      exact .inl ((View.outward_putBackAll (v.forget n) count sp.frames.reverse).isSome.1 h)
  | drop n count m sp =>
      exact .inl ((View.outward_putBackAll (v.forget n) count
        (sp.frames.reverse.take m)).isSome.1 h)
  | emit q v₁ sp ht =>
      obtain ⟨_, heq⟩ := v₁.account_eq q
      rw [heq] at h
      exact .inl (ht.outward.isSome.1 h)
  | pass q v₁ ht =>
      obtain ⟨_, heq⟩ := v₁.account_eq q
      rw [heq] at h
      exact .inl (ht.outward.isSome.1 h)
  | lost q v₁ next hl ht => exact .inl (ht.outward.isSome.1 h)
  | back q v₁ ht => exact .inl ((ht.outward.trans (v₁.outward_putBack _ _)).isSome.1 h)
  | _ => exact .inl h

/-- What goes out is an ACK or a frame taken off a queue, in its packet. -/
theorem Edit.sends_new (e : Edit suite L k v v') {p : Packet} (h : p ∈ v'.sends) :
    p ∈ v.sends ∨ (∃ a, p.frames = [.ack a]) ∨
      ∃ q v₁, Takes v q v₁ ∧ p = v.packetFor q.frame ∧
        ∃ payload, encodeFrames (v.packetFor q.frame) = .ok payload := by
  have hship : ∀ {q : QueuedFrame} {v₁ v₂ : View}, Takes v q v₁ →
      v₂.sends = (v₁.account q).sends ++ [v.packetFor q.frame] → p ∈ v₂.sends →
      p ∈ v.sends ∨ p = v.packetFor q.frame := by
    intro q v₁ v₂ ht hsends hp
    obtain ⟨_, heq⟩ := v₁.account_eq q
    rw [hsends, heq, List.mem_append, List.mem_singleton] at hp
    rwa [← ht.outward.counts.1]
  cases e with
  | read id maxLen s =>
      obtain ⟨_, _, _, heq⟩ := v.read_eq id maxLen s
      rw [heq] at h
      exact .inl h
  | lose n count sp =>
      rw [(View.outward_putBackAll (v.forget n) count sp.frames.reverse).counts.1] at h
      exact .inl h
  | drop n count m sp =>
      rw [(View.outward_putBackAll (v.forget n) count (sp.frames.reverse.take m)).counts.1] at h
      exact .inl h
  | sendAck a =>
      refine (List.mem_append.1 h).imp_right fun h => .inl ⟨a, ?_⟩
      rw [List.mem_singleton.1 h]
  | emit q v₁ sp ht henc =>
      exact (hship ht rfl h).imp_right fun hp => .inr ⟨q, v₁, ht, hp, henc⟩
  | pass q v₁ ht henc => exact (hship ht rfl h).imp_right fun hp => .inr ⟨q, v₁, ht, hp, henc⟩
  | lost q v₁ next hl ht =>
      rw [ht.outward.counts.1] at h
      exact .inl h
  | back q v₁ ht =>
      rw [(ht.outward.trans (v₁.outward_putBack _ _)).counts.1] at h
      exact .inl h
  | drain => cases h
  | _ => exact .inl h

/-! ## Packets with stream data -/

/-- The packet is made as those with stream data are. -/
structure DataPacket (p : Packet) : Prop where
  type : p.packetType = .data
  flags : p.flags = ⟨ackElicitingFlag⟩
  payload : ∃ payload, encodeFrames p = .ok payload

/-- Streams, and packets with stream data, are those of a connection with keys. -/
structure View.Guarded (v : View) : Prop where
  apart : v.Apart
  established : v.state = .established → v.keys.isSome
  streams : ∀ id, (v.streams id).isSome → v.Keeper
  sends : ∀ p ∈ v.sends, CarriesData p → v.Keeper ∧ DataPacket p

namespace View.Guarded

theorem keeper (h : v.Guarded) (hst : v.state = .established) : v.Keeper := by
  refine ⟨h.established hst, ?_⟩
  rw [hst]
  exact ⟨nofun, nofun⟩

/-- A frame taken off a queue that has stream data comes from a stream. -/
theorem taken (h : v.Guarded) {q : QueuedFrame} {v₁ : View} (ht : Takes v q v₁)
    (henc : ∃ payload, encodeFrames (v.packetFor q.frame) = .ok payload)
    (hdata : CarriesData (v.packetFor q.frame)) :
    v.Keeper ∧ DataPacket (v.packetFor q.frame) := by
  obtain ⟨d, hd⟩ := hdata
  have hframe : q.frame = .streamData d := (List.mem_singleton.1 hd).symm
  have hkeeper : v.Keeper := by
    cases ht with
    | pending _ rest hp =>
        have hmem : q ∈ v.pending := by
          rw [hp]
          exact List.mem_cons_self
        exact absurd hframe (h.apart.pending q hmem d)
    | stream id s item send hs =>
        refine h.streams id ?_
        rw [hs]
        rfl
  refine ⟨hkeeper, ?_, ?_, henc⟩
  · unfold View.packetFor
    dsimp only
    rw [hframe]
    exact if_neg hkeeper.2.2
  · unfold View.packetFor
    dsimp only
    rw [hframe]
    rfl

end View.Guarded

theorem Edit.guarded (e : Edit suite L k v v') (h : v.Guarded) : v'.Guarded := by
  refine ⟨e.apart h.apart, e.established_keys h.established, fun id hid => ?_, fun p hp hdata => ?_⟩
  · rcases e.streams_new hid with hold | hst
    · exact e.keeper (h.streams id hold)
    · exact e.keeper (h.keeper hst)
  · rcases e.sends_new hp with hold | ⟨a, ha⟩ | ⟨q, v₁, ht, rfl, henc⟩
    · obtain ⟨hkeeper, hmade⟩ := h.sends p hold hdata
      exact ⟨e.keeper hkeeper, hmade⟩
    · obtain ⟨d, hd⟩ := hdata
      rw [ha] at hd
      cases List.mem_singleton.1 hd
    · obtain ⟨hkeeper, hmade⟩ := h.taken ht henc hdata
      exact ⟨e.keeper hkeeper, hmade⟩

theorem initial_guarded (suite : Suite) (role : ConnectionRole) {id : Nat}
    {config : ConnectionConfig} {handshake : HandshakeState}
    (hunused : handshake.Unused id config) :
    (View.initial suite role id config handshake).Guarded := by
  refine ⟨initial_apart suite role hunused, ?_, nofun, nofun⟩
  cases role <;> exact nofun

/-! ## The keys have their lengths -/

/-- HKDF gives as many bytes as it is asked for. -/
def Suite.Expands (suite : Suite) : Prop :=
  ∀ salt secret info length key, suite.hkdf salt secret info length = some key →
    key.length = length

theorem length_expand (hexpands : Suite.Expands suite) {transcript secret key : Bytes}
    {info : String} {length : Nat} (h : expand suite transcript secret info length = .ok key) :
    key.length = length := by
  unfold expand at h
  split at h
  · next hkey =>
      cases h
      exact hexpands _ _ _ _ _ hkey
  · cases h

theorem deriveSessionKeys_typed (hexpands : Suite.Expands suite) {secret transcript : Bytes}
    {keys : SessionKeys} (h : deriveSessionKeys suite secret transcript = .ok keys) :
    keys.Typed := by
  obtain ⟨_, h⟩ := ok_of_guard h
  obtain ⟨_, hclient, h⟩ := ok_of_bind h
  obtain ⟨_, hserver, h⟩ := ok_of_bind h
  obtain ⟨_, _, h⟩ := ok_of_bind h
  obtain ⟨_, hsalt, h⟩ := ok_of_bind h
  obtain rfl := Except.ok.inj h
  exact ⟨length_expand hexpands hclient, length_expand hexpands hserver,
    length_expand hexpands hsalt⟩

/-- The keys derived and those in use have the lengths of the source's arrays. -/
def View.TypedKeys (v : View) : Prop :=
  ∀ keys, v.handshake.sessionKeys = some keys ∨ v.keys = some keys → keys.Typed

theorem View.TypedKeys.keep (h : v.TypedKeys) (hid : v'.identity = v.identity) :
    v'.TypedKeys := by
  obtain ⟨_, _, _, _, hhs, hkeys, _⟩ := View.identity_eq hid
  unfold View.TypedKeys
  rw [hhs, hkeys]
  exact h

theorem Edit.typedKeys (hexpands : Suite.Expands suite) (e : Edit suite L k v v')
    (h : v.TypedKeys) : v'.TypedKeys := by
  have hderived : ∀ {publicKey transcript : Bytes} {keys : SessionKeys},
      v.handshake.Shares suite publicKey transcript keys → keys.Typed := by
    rintro _ _ keys ⟨_, _, hderive⟩
    exact deriveSessionKeys_typed hexpands hderive
  cases e with
  | answerClient p hello keys hk htype hf hrole hnonce hkeys =>
      rintro keys' (hkeys' | hkeys')
      · cases hkeys'
        exact hderived hkeys
      · exact h keys' (.inr hkeys')
  | answerServer p hello nonce keys hk hf hrole hst hnonce hkeys =>
      rintro keys' (hkeys' | hkeys')
      · cases hkeys'
        exact hderived hkeys
      · exact h keys' (.inr hkeys')
  | secure keys hkeys =>
      rintro keys' (hkeys' | hkeys')
      · exact h keys' (.inl hkeys')
      · cases hkeys'
        exact h keys (.inl hkeys)
  | establish keys hst hkeys =>
      rintro keys' (hkeys' | hkeys')
      · exact h keys' (.inl hkeys')
      · cases hv : v.keys with
        | none =>
            rw [hv] at hkeys'
            cases hkeys'
            exact h keys (.inl hkeys)
        | some keys₀ =>
            rw [hv] at hkeys'
            cases hkeys'
            exact h keys₀ (.inr hv)
  | read id maxLen s => exact h.keep (v.read_identity id maxLen s)
  | lose n count sp =>
      exact h.keep (View.outward_putBackAll (v.forget n) count sp.frames.reverse).identity
  | drop n count m sp =>
      exact h.keep (View.outward_putBackAll (v.forget n) count (sp.frames.reverse.take m)).identity
  | emit q v₁ sp ht => exact h.keep ((v₁.account_identity q).trans ht.outward.identity)
  | pass q v₁ ht => exact h.keep ((v₁.account_identity q).trans ht.outward.identity)
  | lost q v₁ next hl ht => exact h.keep ht.outward.identity
  | back q v₁ ht => exact h.keep (ht.outward.trans (v₁.outward_putBack _ _)).identity
  | _ => exact h

/-! ## Encoding what goes out -/

/-- `encode_packet` makes a datagram of the packet that is marked as encrypted. -/
def Connection.Seals (suite : Suite) (c : Connection) (p : Packet) : Prop :=
  ∃ bytes flags, c.encode suite p = .ok bytes ∧
    peekPacketFlags bytes c.config.maxDatagramSize = .ok flags ∧
    flags.contains encryptedFlag = true

/-- The header, the frames of the packet and the tag fit in the datagram size. -/
def Connection.HasRoom (c : Connection) (p : Packet) : Prop :=
  ∀ payload, encodeFrames p = .ok payload →
    fixedHeaderLen + payload.length + aeadTagLen ≤ c.config.maxDatagramSize

theorem ackEliciting_typed : (⟨ackElicitingFlag⟩ : PacketFlags).bits < 2 ^ 16 ∧
    PacketFlags.fromBits ackElicitingFlag = .ok ⟨ackElicitingFlag⟩ ∧
    (⟨ackElicitingFlag⟩ : PacketFlags).contains encryptedFlag = false := by decide

/-- A packet with stream data and room for the tag is sealed, under any keys. -/
theorem sealed_of (aead : suite.Aead) {p : Packet} {limit : Nat} {crypto : PacketCrypto}
    (hkeys : crypto.keys.Typed) (hp : DataPacket p) (hmax : limit ≤ 0xffff)
    (hroom : ∀ payload, encodeFrames p = .ok payload →
      fixedHeaderLen + payload.length + aeadTagLen ≤ limit) :
    ∃ bytes flags, encodePacketWithCrypto suite p limit crypto = .ok bytes ∧
      peekPacketFlags bytes limit = .ok flags ∧ flags.contains encryptedFlag = true := by
  obtain ⟨payload, hpayload⟩ := hp.payload
  have hfits := hroom payload hpayload
  obtain ⟨ciphertext, tag, hseal⟩ := aead.seals (crypto.keys.outboundKey crypto.role)
    (crypto.keys.packetNonce p.packetNumber)
    (headerBytes p.packetType (p.flags.bitor encryptedFlag) p.connectionId p.packetNumber
      (payload.length + aeadTagLen)) payload (hkeys.outbound _) (hkeys.nonce _) (by omega)
  obtain ⟨hcipher, htag⟩ := suite.encrypt_length hseal
  have hsum : (ciphertext ++ tag).length = payload.length + aeadTagLen := by
    rw [List.length_append, hcipher, htag]
  obtain ⟨hbits, hknown, hplain⟩ := ackEliciting_typed
  rw [← hp.flags] at hbits hplain
  obtain ⟨hbits', hknown', hcontains⟩ := bitor_encrypted hbits (hp.flags ▸ hknown)
  have hwithin : fixedHeaderLen + (ciphertext ++ tag).length ≤ limit := by omega
  have hencode := encodePacketWithCrypto_of hplain hpayload (by omega) hseal hwithin
  rw [← hsum] at hencode
  have hlen : (ciphertext ++ tag).length < 2 ^ 16 := by omega
  exact ⟨_, _, hencode, peekPacketFlags_stamped hbits' hknown' hlen hwithin, hcontains⟩

/-- A packet with stream data that is encoded without keys is not marked. -/
theorem plain_unmarked {p : Packet} {limit : Nat} {bytes : Bytes} {flags : PacketFlags}
    (hp : DataPacket p) (hencode : encodePacket p limit = .ok bytes)
    (hpeek : peekPacketFlags bytes limit = .ok flags) : flags.contains encryptedFlag = false := by
  obtain ⟨hplain, payload, hpayload, hfits, rfl⟩ := encodePacket_inv hencode
  obtain ⟨hbits, hknown, _⟩ := ackEliciting_typed
  rw [← hp.flags] at hbits
  have hlen : payload.length < 2 ^ 16 := Nat.lt_succ_of_le (encodeFrames_inv hpayload).2.2.2
  rw [peekPacketFlags_stamped hbits (hp.flags ▸ hknown) hlen hfits] at hpeek
  cases hpeek
  exact hplain

/-- Closed, a connection encodes every packet in clear. -/
theorem encode_closed (hst : c.state = .closed) (p : Packet) : c.encode suite p =
    match encodePacket p c.config.maxDatagramSize with
    | .ok bytes => .ok bytes
    | .error error => .error (.protocol error) := by
  have hencrypts : c.encrypts p.packetType = false := by
    unfold Connection.encrypts
    rw [hst]
    simp
  unfold Connection.encode
  rw [hencrypts]
  cases c.packetCrypto <;> rfl

/-- Open and with keys, it seals packets of type Data. -/
theorem encode_open (hkeys : c.view.TypedKeys) (hkeeper : c.view.Keeper) (hst : c.state ≠ .closed)
    {p : Packet} (hp : p.packetType = .data) : ∃ crypto, c.packetCrypto = some crypto ∧
      crypto.keys.Typed ∧ c.encode suite p =
        match encodePacketWithCrypto suite p c.config.maxDatagramSize crypto with
        | .ok bytes => .ok bytes
        | .error error => .error (.protocol error) := by
  obtain ⟨hsome, hidle, hhandshaking⟩ := hkeeper
  cases hcrypto : c.packetCrypto with
  | none =>
      unfold Connection.view at hsome
      rw [hcrypto] at hsome
      cases hsome
  | some crypto =>
      have hview : c.view.keys = some crypto.keys := by
        unfold Connection.view
        rw [hcrypto]
        rfl
      have hencrypts : c.encrypts p.packetType = true := by
        unfold Connection.encrypts
        rw [hcrypto, hp, Option.isSome_some]
        cases hstate : c.state with
        | idle => exact absurd hstate hidle
        | handshaking => exact absurd hstate hhandshaking
        | closed => exact absurd hstate hst
        | _ => decide
      refine ⟨crypto, rfl, hkeys crypto.keys (.inr hview), ?_⟩
      unfold Connection.encode
      rw [hcrypto]
      exact congrArg (fun encoded : Except ProtocolError Bytes =>
        match encoded with
        | .ok bytes => Except.ok bytes
        | .error error => Except.error (CoreError.protocol error)) (if_pos hencrypts)

/-- A connection with keys seals a packet with stream data if it is not closed and
has room for the packet. -/
theorem seals_iff (aead : suite.Aead) (hkeys : c.view.TypedKeys) (hkeeper : c.view.Keeper)
    (hmax : c.config.maxDatagramSize ≤ 0xffff) {p : Packet} (hp : DataPacket p) :
    c.Seals suite p ↔ c.state ≠ .closed ∧ c.HasRoom p := by
  by_cases hclosed : c.state = .closed
  · refine ⟨fun h => ?_, fun h => absurd hclosed h.1⟩
    obtain ⟨bytes, flags, hencode, hpeek, hmarked⟩ := h
    rw [encode_closed hclosed] at hencode
    split at hencode
    · next bytes' hplain =>
        cases hencode
        rw [plain_unmarked hp hplain hpeek] at hmarked
        cases hmarked
    · cases hencode
  · obtain ⟨crypto, hcrypto, htyped, hencode⟩ := encode_open hkeys hkeeper hclosed hp.type
    unfold Connection.Seals
    rw [hencode, and_iff_right hclosed]
    refine ⟨fun h payload hpayload => ?_, fun hroom => ?_⟩
    · obtain ⟨bytes, flags, hencode, _⟩ := h
      split at hencode
      · next bytes' hsealed =>
          obtain ⟨payload', hpayload', hfits⟩ := encodePacketWithCrypto_inv hsealed
          cases hpayload.symm.trans hpayload'
          exact hfits
      · cases hencode
    · obtain ⟨bytes, flags, hsealed, hpeek⟩ := sealed_of aead htyped hp hmax hroom
      rw [hsealed]
      exact ⟨bytes, flags, rfl, hpeek⟩

/-! ## Every run -/

/-- Draining makes no difference for encoding. -/
theorem encode_drained (suite : Suite) (c : Connection) (p : Packet) :
    (after (perform suite .drainOutput) c).encode suite p = c.encode suite p := rfl

/-- A packet with stream data that is drained is sealed if and only if the connection is
not closed at that time and the datagram size has room for it. -/
theorem stream_data_sealed_iff (suite : Suite) (aead : suite.Aead)
    (hexpands : Suite.Expands suite) {role : ConnectionRole} {config : ConnectionConfig}
    (hfresh : Fresh suite role config c) (ops : List Op) {p : Packet}
    (hp : p ∈ packetsOf (drained suite .drainOutput (final suite c ops))) (hdata : CarriesData p) :
    (after (perform suite .drainOutput) (final suite c ops)).Seals suite p ↔
      (final suite c ops).state ≠ .closed ∧ (final suite c ops).HasRoom p := by
  have hreached := reached_final hfresh ops
  have hguarded : (final suite c ops).view.Guarded :=
    hreached.keeps (fun _ _ hunused => initial_guarded suite role hunused) fun e h => e.guarded h
  have hkeys : (final suite c ops).view.TypedKeys := by
    refine hreached.keeps (fun id handshake hunused => ?_) fun e h => e.typedKeys hexpands h
    obtain ⟨_, _, rfl⟩ := hunused
    cases role <;> rintro keys (h | h) <;> cases h
  have hmax : (final suite c ops).view.config.maxDatagramSize ≤ 0xffff := by
    refine hreached.keeps (I := fun v => v.config.maxDatagramSize ≤ 0xffff)
      (fun id handshake _ => (validate_limits (fresh_edits hfresh).1).1) fun e h => ?_
    obtain ⟨size, cookie, heq, hle⟩ := e.configured
    rw [heq]
    exact hle.trans h
  obtain ⟨hkeeper, hmade⟩ := hguarded.sends p hp hdata
  exact seals_iff aead hkeys hkeeper hmax hmade

/-! ### One stream

The server of the sample exchange opens a stream and writes two bytes. The cipher
is computed with the real one for the packet with the two bytes. -/

/-- The bytes under a key stream. -/
def maskWith (keystream bytes : Bytes) : Bytes :=
  bytes.mapIdx fun index byte => byte ^^^ (keystream[index]?).getD 0

theorem maskWith_maskWith (keystream bytes : Bytes) :
    maskWith keystream (maskWith keystream bytes) = bytes := by
  refine List.ext_getElem (by simp [maskWith]) fun i h1 h2 => ?_
  simp only [maskWith, List.getElem_mapIdx, UInt8.xor_assoc, UInt8.xor_self, UInt8.xor_zero]

def streamKeystream : Bytes := beBytes 8 0x83b2159bb4bb7006

def streamTag : Bytes := beBytes 16 0x86e23ce562ebd361e06f8d60e24cf3a7

def streamSuite : Suite := { sampleSuite with
  encrypt := fun _ _ _ plaintext => some (maskWith streamKeystream plaintext, streamTag)
  decrypt := fun _ _ _ ciphertext tag =>
    if tag = streamTag then some (maskWith streamKeystream ciphertext) else none
  encrypt_length := by
    intro key nonce associatedData plaintext ciphertext tag h
    cases h
    exact ⟨by simp [maskWith], rfl⟩ }

theorem streamSuite_aead : streamSuite.Aead := by
  refine ⟨fun _ _ _ plaintext _ _ _ => ⟨maskWith streamKeystream plaintext, streamTag, rfl⟩, ?_⟩
  intro key nonce associatedData plaintext ciphertext tag h
  cases h
  show (if streamTag = streamTag then some (maskWith streamKeystream
    (maskWith streamKeystream plaintext)) else none) = some plaintext
  rw [if_pos rfl, maskWith_maskWith]

theorem streamSuite_expands : Suite.Expands streamSuite := by
  intro salt secret info length key h
  cases h
  exact length_beBytes ..

def streamRun : List Op :=
  (samplePackets.take 2).map .onDatagram ++ [.openStream, .writeStream 1 [104, 105] false]

/-- The packet with the two bytes, under a number. -/
def streamPacket (number : Nat) : Packet :=
  ⟨.data, ⟨ackElicitingFlag⟩, 7, number, [.streamData ⟨1, 0, false, [104, 105]⟩]⟩

theorem streamPacket_carries (number : Nat) : CarriesData (streamPacket number) :=
  ⟨_, List.mem_singleton_self _⟩

theorem stream_data_sealed_iff_sample : ∃ c, Fresh streamSuite .server {} c ∧
    (after (perform streamSuite .drainOutput) (final streamSuite c streamRun)).Seals streamSuite
      (streamPacket 2) := by
  obtain ⟨c, hc, hrun⟩ := of_checks
    (r := Connection.newServer streamSuite 7 {} (sampleEntropy .server))
    (p := fun c => decide ((final streamSuite c streamRun).state = .established ∧
      streamPacket 2 ∈ packetsOf (final streamSuite c streamRun).output ∧
      (final streamSuite c streamRun).config.maxDatagramSize = 1200)) (by decide +kernel)
  obtain ⟨hstate, hmem, hsize⟩ := of_decide_eq_true hrun
  have hfresh : Fresh streamSuite .server {} c := ⟨7, sampleEntropy .server, hc⟩
  rw [← drained_drainOutput streamSuite] at hmem
  refine ⟨c, hfresh, (stream_data_sealed_iff streamSuite streamSuite_aead streamSuite_expands hfresh
    streamRun hmem (streamPacket_carries 2)).2 ⟨?_, fun payload hpayload => ?_⟩⟩
  · rw [hstate]
    exact nofun
  · rw [hsize]
    cases (show encodeFrames (streamPacket 2) = .ok [6, 6, 1, 0, 0, 2, 104, 105] by
      decide +kernel).symm.trans hpayload
    decide

/-- The server drains its packets, closes and hears nothing for a second: the timers of the
packets and of the end go off in one batch. -/
def clearRun : List Op :=
  streamRun ++ [.drainOutput, .close 0 [], .drainOutput, .advanceTime 1000000000]
/-- The datagram of the packet with the two bytes that goes out then. -/
def clearBytes : Bytes :=
  [215, 241, 2, 2, 0, 1, 0, 30, 0, 0, 0, 0, 0, 0, 0, 7, 0, 0, 0, 0, 0, 0, 0, 7, 0, 8, 201, 211, 61,
    5, 6, 6, 1, 0, 0, 2, 104, 105]

/-- **Stream data in clear.** The two bytes go out again after the connection has
closed, in a datagram that anyone can read. -/
theorem stream_data_in_clear : ∃ c, Fresh sampleSuite .server {} c ∧
    streamPacket 7 ∈ packetsOf (drained sampleSuite .drainOutput (final sampleSuite c clearRun)) ∧
    CarriesData (streamPacket 7) ∧
    (after (perform sampleSuite .drainOutput) (final sampleSuite c clearRun)).encode sampleSuite
      (streamPacket 7) = .ok clearBytes ∧
    peekPacketFlags clearBytes 1200 = .ok ⟨ackElicitingFlag⟩ ∧
    decodePacket clearBytes 1200 = .ok (streamPacket 7) := by
  obtain ⟨c, hc, hrun⟩ := of_checks (r := sampleConnection .server {})
    (p := fun c => decide ((final sampleSuite c clearRun).state = .closed ∧
      streamPacket 7 ∈ packetsOf (final sampleSuite c clearRun).output ∧
      (final sampleSuite c clearRun).config.maxDatagramSize = 1200)) (by decide +kernel)
  obtain ⟨hstate, hmem, hsize⟩ := of_decide_eq_true hrun
  rw [← drained_drainOutput sampleSuite] at hmem
  refine ⟨c, sampleConnection_fresh hc, hmem, streamPacket_carries 7, ?_, by decide +kernel,
    by decide +kernel⟩
  have hencode : encodePacket (streamPacket 7) 1200 = .ok clearBytes := by decide +kernel
  rw [encode_drained, encode_closed hstate, hsize, hencode]

end DartUdp.Core
