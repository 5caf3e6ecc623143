import DartUdp.Proofs.ConnEdits

/-!
# Where the frames of a connection come from

A frame is made once: by a call of the application, in answer to a packet, or
out of what is stored for the handshake. From then on it only moves, between
the queues, the packets sent and those that wait to be acknowledged. So a
property that every frame has when it is made is a property of every frame a
connection holds or has sent.

`View.Carries` says it of everything a view holds. `Edit.carries` is the rule: an
edit keeps it if the frames the edit makes have the property (`View.Makes`).
-/

namespace DartUdp.Core

open DartUdp.Lib DartUdp.Udp

variable {suite : Suite} {L : Prop} {k : Cause} {v v' : View} {c : Connection}
  {P : Frame → Prop}

/-- The frame a chunk of a stream goes out in. -/
def PendingData.frame (item : PendingData) (id : Nat) : Frame :=
  .streamData ⟨id, item.offset, item.fin, item.data⟩

/-- A frame of the handshake is in a packet of its type. -/
def Typed (p : Packet) (f : Frame) : Prop := Hello f → ∀ st, p.packetType = packetType f st

theorem View.typed_packetFor (v : View) (f : Frame) : Typed (v.packetFor f) f := by
  intro hf st
  cases f with
  | clientHello hello => rfl
  | serverHello hello => rfl
  | handshakeAck ack => rfl
  | _ => exact hf.elim

/-- Every frame the connection holds or has sent has the property. What it has
sent goes under its own id, and the frames of the handshake in packets of their
type. -/
structure View.Carries (P : Frame → Prop) (v : View) : Prop where
  pending : ∀ q ∈ v.pending, P q.frame
  queues : ∀ id s, v.streams id = some s → ∀ item ∈ s.send.queue, P (item.frame id)
  unacked : ∀ n sp, v.unacked n = some sp → ∀ q ∈ sp.frames, P q.frame
  sends : ∀ p ∈ v.sends, p.connectionId = v.id ∧ ∀ f ∈ p.frames, P f ∧ Typed p f

/-- Every frame made for the cause has the property. -/
structure View.Makes (P : Frame → Prop) (k : Cause) (v : View) : Prop where
  own : ∀ f, Own f → P f
  stored : ∀ f, v.stored = some f → P f
  ack : ∀ a, (∀ n, a.covers n = true → v.received.any (·.contains n) = true) → P (.ack a)
  opens : k = .opening → v.state = .established → ∀ id, (v.streams id).isSome →
    P (.streamOpen ⟨id, v.peerWindow, true⟩)
  limits : ∀ id maxLen s m, k = .reading id maxLen → v.streams id = some s →
    (s.read maxLen).1.windowUpdate = some m → P (.maxStreamData ⟨id, m⟩)
  writes : ∀ id data fin s maxBuffer maxChunk n send, k = .writing id data fin →
    v.streams id = some s → s.send.write data fin maxBuffer maxChunk = .ok (n, send) →
    ∀ item ∈ send.queue, P (item.frame id)

namespace View.Carries

theorem keep (h : v.Carries P) (hp : v'.pending = v.pending) (hs : v'.streams = v.streams)
    (hu : v'.unacked = v.unacked) (hsends : v'.sends = v.sends) (hid : v'.id = v.id) :
    v'.Carries P := by
  constructor
  · rw [hp]
    exact h.pending
  · rw [hs]
    exact h.queues
  · rw [hu]
    exact h.unacked
  · rw [hsends, hid]
    exact h.sends

/-- The record of a stream with chunks that have the property. -/
theorem put (h : v.Carries P) {id : Nat} {s : StreamRecord}
    (hs : ∀ item ∈ s.send.queue, P (item.frame id)) : (v.put id s).Carries P := by
  refine ⟨h.pending, fun i s' hs' => ?_, h.unacked, h.sends⟩
  by_cases hi : i = id
  · subst hi
    rw [put_self] at hs'
    cases hs'
    exact hs
  · rw [put_of_ne hi] at hs'
    exact h.queues i s' hs'

theorem enqueue (h : v.Carries P) {f : Frame} (hf : P f) : (v.enqueue f).Carries P := by
  refine ⟨fun q hq => ?_, h.queues, h.unacked, h.sends⟩
  rcases List.mem_append.1 hq with hq | hq
  · exact h.pending q hq
  · rw [List.mem_singleton.1 hq]
    exact hf

theorem enqueueFront (h : v.Carries P) {f : Frame} (hf : P f) : (v.enqueueFront f).Carries P := by
  refine ⟨fun q hq => ?_, h.queues, h.unacked, h.sends⟩
  rcases List.mem_cons.1 hq with rfl | hq
  · exact hf
  · exact h.pending q hq

theorem forget (h : v.Carries P) (n : Nat) : (v.forget n).Carries P := by
  refine ⟨h.pending, h.queues, fun m sp hm => ?_, h.sends⟩
  by_cases hmn : m = n
  · subst hmn
    rw [forget_self] at hm
    cases hm
  · rw [forget_of_ne hmn] at hm
    exact h.unacked m sp hm

theorem putBack (h : v.Carries P) {f : Frame} (hf : P f) (n : Nat) : (v.putBack f n).Carries P := by
  unfold View.putBack
  split
  · next d =>
      split
      · next s hs =>
          refine h.put fun item hitem => ?_
          rcases List.mem_cons.1 hitem with rfl | hitem
          · exact hf
          · exact h.queues d.streamId s hs item hitem
      · exact h
  · refine ⟨fun q hq => ?_, h.queues, h.unacked, h.sends⟩
    rcases List.mem_cons.1 hq with rfl | hq
    · exact hf
    · exact h.pending q hq

theorem putBackAll (h : v.Carries P) (n : Nat) {frames : List QueuedFrame}
    (hf : ∀ q ∈ frames, P q.frame) : (v.putBackAll n frames).Carries P := by
  induction frames generalizing v with
  | nil => exact h
  | cons q rest ih =>
      exact ih (h.putBack (hf q List.mem_cons_self) n) fun q' hq' =>
        hf q' (List.mem_cons_of_mem q hq')

/-- The frame taken has the property, and so has what is left. -/
theorem takes {q : QueuedFrame} (h : v.Carries P) (ht : Takes v q v') :
    P q.frame ∧ v'.Carries P := by
  cases ht with
  | pending _ rest hp =>
      have hq : ∀ q' ∈ q :: rest, P q'.frame := by
        rw [← hp]
        exact h.pending
      exact ⟨hq q List.mem_cons_self, fun q' hq' => hq q' (List.mem_cons_of_mem q hq'), h.queues,
        h.unacked, h.sends⟩
  | stream id s item send hs hpop =>
      unfold SendStream.popSendable at hpop
      split at hpop
      · cases hpop
      · next rest hqueue =>
          cases hpop
          have hitem : ∀ item' ∈ item :: rest, P (item'.frame id) := by
            rw [← hqueue]
            exact h.queues id s hs
          exact ⟨hitem item List.mem_cons_self,
            h.put fun item' hitem' => hitem item' (List.mem_cons_of_mem item hitem')⟩

theorem account (h : v.Carries P) (q : QueuedFrame) : (v.account q).Carries P := by
  obtain ⟨sent, heq⟩ := v.account_eq q
  rw [heq]
  exact h.keep rfl rfl rfl rfl rfl

theorem ship (h : v.Carries P) {p : Packet} (hid : p.connectionId = v.id)
    (hp : ∀ f ∈ p.frames, P f ∧ Typed p f) : (v.ship p).Carries P := by
  refine ⟨h.pending, h.queues, h.unacked, fun p' hp' => ?_⟩
  rcases List.mem_append.1 hp' with hp' | hp'
  · exact h.sends p' hp'
  · rw [List.mem_singleton.1 hp']
    exact ⟨hid, hp⟩

theorem track (h : v.Carries P) {sp : SentPacket} (hsp : ∀ q ∈ sp.frames, P q.frame) (n : Nat) :
    (v.track n sp).Carries P := by
  refine ⟨h.pending, h.queues, fun m sp' hm => ?_, h.sends⟩
  by_cases hmn : m = n
  · subst hmn
    rw [track_self] at hm
    cases hm
    exact hsp
  · rw [track_of_ne hmn] at hm
    exact h.unacked m sp' hm

theorem read (h : v.Carries P) {id maxLen : Nat} {s : StreamRecord} (hs : v.streams id = some s)
    (hlimit : ∀ m, (s.read maxLen).1.windowUpdate = some m → P (.maxStreamData ⟨id, m⟩)) :
    (v.read id maxLen s).Carries P := by
  have hput : (v.put id (s.read maxLen).2).Carries P := h.put (h.queues id s hs)
  exact View.read_rule (fun m hm => hput.enqueue (hlimit m hm)) (fun _ => hput)
    fun _ _ h' => h'.keep rfl rfl rfl rfl rfl

end View.Carries

theorem Edit.carries (e : Edit suite L k v v') (h : v.Carries P) (hm : v.Makes P k) :
    v'.Carries P := by
  have hmade : ∀ f, Own f ∨ v.stored = some f → P f := fun f hf =>
    hf.elim (hm.own f) (hm.stored f)
  cases e with
  | enqueue f hf => exact h.enqueue (hmade f hf)
  | enqueueFront f hf => exact h.enqueueFront (hmade f hf)
  | opened id => exact h.put nofun
  | announce id hk hst hs => exact h.enqueue (hm.opens hk hst id hs)
  | accept p o => exact h.put nofun
  | write id data fin s maxBuffer maxChunk n send hk hst hs hopen hw =>
      exact h.put (hm.writes id data fin s maxBuffer maxChunk n send hk hs hw)
  | read id maxLen s hk hs => exact h.read hs fun m hmax => hm.limits id maxLen s m hk hs hmax
  | insert p d s newBytes n recv hk hf hst hs =>
      exact View.Carries.keep (v := v.put d.streamId { s with recv := recv })
        (h.put (h.queues d.streamId s hs)) rfl rfl rfl rfl rfl
  | reject p d s e recv hl hk hf hs => exact h.put (h.queues d.streamId s hs)
  | finish id s hs => exact h.put (h.queues id s hs)
  | limit p u s hk hf hs => exact h.put (h.queues u.streamId s hs)
  | reset p r s hk hf hs => exact h.put (h.queues r.streamId s hs)
  | ack p a n sp => exact (h.forget n).keep rfl rfl rfl rfl rfl
  | lose n count sp hs =>
      exact (h.forget n).putBackAll count fun q hq => h.unacked n sp hs q (List.mem_reverse.1 hq)
  | drop n count m sp hl hs =>
      exact (h.forget n).putBackAll count fun q hq =>
        h.unacked n sp hs q (List.mem_reverse.1 (List.mem_of_mem_take hq))
  | sendAck a hc =>
      refine h.ship rfl fun f hf => ?_
      rw [List.mem_singleton.1 hf]
      exact ⟨hm.ack a hc, nofun⟩
  | emit q v₁ sp ht henc hflow hframes =>
      obtain ⟨hq, h₁⟩ := h.takes ht
      have hid : (v₁.account q).id = v.id := by
        obtain ⟨sent, heq⟩ := v₁.account_eq q
        rw [heq]
        exact ht.outward.fields.2.1
      refine (((h₁.account q).ship hid.symm fun f hf => ?_).track fun q' hq' => ?_) v.next
      · rw [List.mem_singleton.1 hf]
        exact ⟨hq, v.typed_packetFor q.frame⟩
      · rw [hframes] at hq'
        exact List.mem_singleton.1 hq' ▸ hq
  | pass q v₁ ht =>
      obtain ⟨hq, h₁⟩ := h.takes ht
      have hid : (v₁.account q).id = v.id := by
        obtain ⟨sent, heq⟩ := v₁.account_eq q
        rw [heq]
        exact ht.outward.fields.2.1
      refine (h₁.account q).ship hid.symm fun f hf => ?_
      rw [List.mem_singleton.1 hf]
      exact ⟨hq, v.typed_packetFor q.frame⟩
  | lost q v₁ next hl ht => exact (h.takes ht).2.keep rfl rfl rfl rfl rfl
  | back q v₁ ht => exact (h.takes ht).2.putBack (h.takes ht).1 _
  | drain hk => exact ⟨h.pending, h.queues, h.unacked, nofun⟩
  | _ => exact h.keep rfl rfl rfl rfl rfl

end DartUdp.Core
