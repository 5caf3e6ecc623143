import DartUdp.Proofs.ConnKeys
import DartUdp.Lib.Runs

/-!
# The stages of an operation

A property of every frame a connection processes is about the states in which it
processes one, and these lie inside `on_datagram`: the packet has been recorded,
its ACKs have been applied, and the frames before were processed. A stage is an
operation or one of these parts of it, and a state is reached when some stages
lead to it. So every state in which a frame is processed is reached, and so is
every state between two operations.

`Reached.keeps` is the invariant rule of the stages: what every edit keeps holds in
every state that is reached.
-/

namespace DartUdp.Core

open DartUdp.Lib DartUdp.Udp

variable {suite : Suite} {L : Prop} {k : Cause} {c : Connection} {v v' : View}

/-- `on_datagram` up to the frame with the index. -/
def reachFrame (suite : Suite) (packet : Packet) (index : Nat) : ConnM Unit := do
  let isNew ← receivePacket packet
  applyAcks packet.frames
  if isNew then processFrames suite packet.packetType (packet.frames.take index)

inductive Stage where
  | perform (op : Op)
  | decode (bytes : Bytes)
  | reachFrame (packet : Packet) (index : Nat)
  | frame (packetType : PacketType) (frame : Frame)

/-- The connection after a stage, whichever way it ends. -/
def Connection.go (suite : Suite) (c : Connection) : Stage → Connection
  | .perform op => after (Core.perform suite op) c
  | .decode bytes => after (decodeDatagram suite bytes) c
  | .reachFrame packet index => after (Core.reachFrame suite packet index) c
  | .frame packetType frame => after (processFrame suite packetType frame) c

/-- Some stages lead to the connection from a new one. -/
def Reached (suite : Suite) (role : ConnectionRole) (config : ConnectionConfig)
    (c : Connection) : Prop :=
  ∃ (c₀ : Connection) (stages : List Stage), Fresh suite role config c₀ ∧
    c = stages.foldl (Connection.go suite) c₀

/-- The packet a stage makes the connection act on. -/
def Stage.cause (suite : Suite) (c : Connection) : Stage → Cause
  | .perform op => Core.cause suite c op
  | .decode _ => .other
  | .reachFrame packet .. => .packet packet
  | .frame packetType f => .packet ⟨packetType, .empty, 0, 0, [f]⟩

/-! ## The configuration -/

theorem View.Outward.config (h : v.Outward v') : v'.config = v.config := by
  obtain ⟨streams, pending, rfl, _⟩ := h
  rfl

theorem View.hearClient_config (v : View) (hello : ClientHello) :
    ∃ size cookie, (v.hearClient hello).config =
        { v.config with maxDatagramSize := size, handshakeCookie := cookie } ∧
      size ≤ v.config.maxDatagramSize := by
  unfold View.hearClient
  dsimp only
  split
  · exact ⟨v.config.maxDatagramSize, v.config.handshakeCookie, rfl, Nat.le_refl _⟩
  · exact ⟨_, v.config.handshakeCookie, rfl, Nat.min_le_left _ _⟩

/-- Only the datagram size, which never grows, and the cookie are ever set. -/
theorem Edit.configured (e : Edit suite L k v v') : ∃ size cookie, v'.config =
      { v.config with maxDatagramSize := size, handshakeCookie := cookie } ∧
    size ≤ v.config.maxDatagramSize := by
  have hsame : ∀ v₁ : View, v₁.config = v.config → ∃ size cookie, v₁.config =
        { v.config with maxDatagramSize := size, handshakeCookie := cookie } ∧
      size ≤ v.config.maxDatagramSize := fun _ heq =>
    ⟨v.config.maxDatagramSize, v.config.handshakeCookie, heq, Nat.le_refl _⟩
  cases e with
  | hearClient p hello => exact v.hearClient_config hello
  | answerClient p hello => exact v.hearClient_config hello
  | hearServer p hello => exact ⟨_, v.config.handshakeCookie, rfl, Nat.min_le_left _ _⟩
  | answerServer p hello => exact ⟨_, v.config.handshakeCookie, rfl, Nat.min_le_left _ _⟩
  | retry p cookie => exact ⟨v.config.maxDatagramSize, cookie, rfl, Nat.le_refl _⟩
  | read id maxLen s hk hs =>
      obtain ⟨_, _, _, heq⟩ := v.read_eq id maxLen s
      exact hsame _ (by rw [heq]; rfl)
  | lose n count sp => exact hsame _ (View.outward_putBackAll (v.forget n) count _).config
  | drop n count m sp => exact hsame _ (View.outward_putBackAll (v.forget n) count _).config
  | emit q v₁ sp ht =>
      obtain ⟨sent, hsent⟩ := v₁.account_eq q
      exact hsame _ (by rw [hsent]; exact ht.outward.config)
  | pass q v₁ ht =>
      obtain ⟨sent, hsent⟩ := v₁.account_eq q
      exact hsame _ (by rw [hsent]; exact ht.outward.config)
  | lost q v₁ next hl ht => exact hsame _ ht.outward.config
  | back q v₁ ht => exact hsame _ (ht.outward.trans (v₁.outward_putBack _ _)).config
  | _ => exact hsame _ rfl

/-! ## Stages are edits -/

theorem receivePacket_does (packet : Packet) :
    Does suite (.packet packet) (receivePacket packet) c := by
  rw [receivePacket, Does, ends_bind, ends_get]
  refine Does.ite (fun _ => .refl) fun _ => Does.ite (fun _ => .refl) fun _ => ?_
  exact Does.bind Does.onTimers fun _ _ _ => recordReceived_does packet

theorem handlePacket_does (suite : Suite) (packet : Packet) (isNew : Bool) :
    Does suite (.packet packet) (handlePacket suite packet isNew) c := by
  refine Does.bind (applyAcks_does _ fun _ h => h) fun _ _ _ => Does.ite (fun _ => ?_) fun _ => ?_
  · exact Does.bind (processFrames_does suite _ fun _ h => h) fun _ _ _ => acknowledge_does packet
  · exact acknowledge_does packet

theorem reachFrame_does (suite : Suite) (packet : Packet) (index : Nat) :
    Does suite (.packet packet) (reachFrame suite packet index) c := by
  refine Does.bind (receivePacket_does packet) fun isNew _ _ =>
    Does.bind (applyAcks_does _ fun _ h => h) fun _ _ _ => Does.ite (fun _ => ?_) fun _ => .refl
  exact processFrames_does suite _ fun _ h => List.mem_of_mem_take h

theorem go_edits (suite : Suite) (c : Connection) (stage : Stage) :
    Edits suite True (stage.cause suite c) c.view (c.go suite stage).view := by
  have hdoes : ∀ {α : Type} {k : Cause} {m : ConnM α}, Does suite k m c →
      Edits suite True k c.view (after m c).view := fun h =>
    Ends.after (P := fun c' => Edits suite True _ c.view c'.view)
      (h.mono (fun _ _ h => h.mono) fun _ _ h => h)
  cases stage with
  | perform op => exact perform_edits suite op c
  | decode bytes =>
      refine Ends.after (P := fun c' => Edits suite True _ c.view c'.view)
        ((decodeDatagram_ends suite bytes).mono (fun _ _ h => ?_) fun _ _ h => ?_)
      · rw [h]
      · rw [h]
  | reachFrame packet index => exact hdoes (reachFrame_does suite packet index)
  | frame packetType frame =>
      exact hdoes (processFrame_does suite (p := ⟨packetType, .empty, 0, 0, [frame]⟩)
        (List.mem_singleton.2 rfl))

/-- What holds at first and is kept by every edit holds of every reached
connection. -/
theorem Reached.keeps {role : ConnectionRole} {config : ConnectionConfig} {I : View → Prop}
    (h : Reached suite role config c)
    (hstart : ∀ id handshake, HandshakeState.Unused handshake id config →
      I (View.initial suite role id config handshake))
    (hedit : ∀ {L k v v'}, Edit suite L k v v' → I v → I v') : I c.view := by
  have hedits : ∀ {L k v v'}, Edits suite L k v v' → I v → I v' := fun h hI => by
    induction h with
    | refl => exact hI
    | tail _ e ih => exact hedit e ih
  obtain ⟨c₀, stages, hfresh, rfl⟩ := h
  obtain ⟨_, id, handshake, hunused, hmade⟩ := fresh_edits hfresh
  exact run_keeps (I := fun c => I c.view) stages (hedits hmade (hstart id handshake hunused))
    fun c stage hI => hedits (go_edits suite c stage) hI

/-- A run reaches the connection it leaves. -/
theorem reached_final {role : ConnectionRole} {config : ConnectionConfig}
    (h : Fresh suite role config c) (ops : List Op) :
    Reached suite role config (final suite c ops) := by
  refine ⟨c, ops.map .perform, h, ?_⟩
  rw [List.foldl_map]
  rfl

end DartUdp.Core
