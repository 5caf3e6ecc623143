import DartUdp.Lib.Codec
import DartUdp.Proofs.ConnKeys
import DartUdp.Proofs.ConnNumbers
import DartUdp.Proofs.ConnQuiet
import DartUdp.Proofs.ConnSend
import DartUdp.Proofs.ConnStages

/-!
# What a flush leaves waiting

A flush sends in a fixed order: the ACK that is due, then the frames queued, then
the front chunks of the streams by id, past those that wait for the window of
their own stream. It stops at the first frame that may not go and puts it back
where it stood, so that frame is the first of those left, and everything behind
it waits for it. This file says what the first frame left waits for.

The module is for `flush_held`. `takeDataCandidate_took` says that what is taken is
the first of the line, `flushOnce_held` what a round leaves and `flushLoop_held`
what all of them leave.
-/

namespace DartUdp.Core

open DartUdp.Lib DartUdp.Udp

variable {suite : Suite} {c c₁ : Connection} {q : QueuedFrame} {m m' : StreamManager}

/-! ## The line -/

/-- The frame a stream would send next. -/
def StreamRecord.front (id : Nat) (s : StreamRecord) : Option QueuedFrame :=
  if s.sendable then
    s.send.queue.head?.map fun item => ⟨.streamData (item.chunk id), item.retransmitCount⟩
  else none

/-- The front chunks of the streams, by id. -/
def StreamManager.fronts (m : StreamManager) : List QueuedFrame :=
  m.streams.toList.filterMap fun entry => entry.2.front entry.1

/-- The frames that could be next, in the order a flush takes them: all that are
queued, and of every stream its front chunk if the window of the stream lets it
go. -/
def Connection.line (c : Connection) : List QueuedFrame :=
  c.transport.pendingFrames ++ c.streams.fronts

/-- An ACK is due. -/
def Connection.ackDue (c : Connection) : Bool := c.transport.ackPending && c.transport.ackReady

/-- The packet of the frame does not fit the congestion window. -/
def Connection.exceeds (c : Connection) (q : QueuedFrame) : Bool :=
  match c.encodedLen (c.packetFor (.frame q)) with
  | .ok len => q.frame.isAckEliciting && !c.transport.congestion.canSend len
  | .error _ => false

/-- The frame is stream data beyond what the peer lets the connection send. -/
def Connection.overdraws (c : Connection) (q : QueuedFrame) : Bool :=
  match q.frame with
  | .streamData d => !c.connectionSend.canSend d.data.length (q.retransmitCount != 0)
  | _ => false

/-- No ACK waits that has something to acknowledge, and the first in line waits
for the congestion window or for the connection's. -/
structure Connection.Held (c : Connection) : Prop where
  ack : c.ackDue = true → c.transport.received.ranges = []
  first : c.ackDue = false → ∀ q ∈ c.line.head?, c.overdraws q = false → c.exceeds q = true

/-! ## Taking from the line -/

theorem front_of_queue {id : Nat} {s : StreamRecord} {item : PendingData} {rest : List PendingData}
    (hqueue : s.send.queue = item :: rest) (h : s.sendable = true) :
    s.front id = some ⟨.streamData (item.chunk id), item.retransmitCount⟩ := by
  unfold StreamRecord.front
  rw [if_pos h, hqueue]
  rfl

theorem front_eq_none {id : Nat} {s : StreamRecord} : s.front id = none ↔ s.sendable = false := by
  constructor
  · intro h
    by_contra hsendable
    have htrue : s.sendable = true := Bool.eq_true_of_not_eq_false hsendable
    have hqueue := htrue
    unfold StreamRecord.sendable at hqueue
    split at hqueue
    · cases hqueue
    · next item rest hq =>
        rw [front_of_queue hq htrue] at h
        cases h
  · intro h
    unfold StreamRecord.front
    rw [h, if_neg Bool.false_ne_true]

/-- Streams whose fronts are the same are met in the same order. -/
theorem fronts_congr
    (h : ∀ id : Nat, (m'.streams[id]?).bind (·.front id) = (m.streams[id]?).bind (·.front id)) :
    m'.fronts = m.fronts := by
  have hmap : ∀ n : StreamManager,
      n.fronts = (n.streams.filterMap fun id s => s.front id).toList.map (·.2) := by
    intro n
    rw [Std.TreeMap.toList_filterMap, List.map_filterMap]
    unfold StreamManager.fronts
    refine List.filterMap_congr fun entry _ => ?_
    cases entry.2.front entry.1 with
    | none => rfl
    | some q => rfl
  rw [hmap, hmap]
  refine congrArg _ (toList_congr fun id => ?_)
  rw [Std.TreeMap.getElem?_filterMap', Std.TreeMap.getElem?_filterMap']
  exact h id

theorem fronts_of_none (h : m.takeSendable = none) : m.fronts = [] := by
  rw [takeSendable_eq_none] at h
  refine List.filterMap_eq_nil_iff.2 fun entry hentry => ?_
  have hs : m.streams[entry.1]? = some entry.2 :=
    Std.TreeMap.mem_toList_iff_getElem?_eq_some.1 hentry
  exact front_eq_none.2 (h entry.1 entry.2 hs)

/-- The chunk taken is the first of the fronts, off the queue of its stream. -/
theorem takeSendable_front (h : m.takeSendable = some (q, m')) :
    m.fronts.head? = some q ∧
      ∃ (id : Nat) (s : StreamRecord) (item : PendingData) (send : SendStream),
        m.streams[id]? = some s ∧ s.send.popSendable = some (item, send) ∧
        q = ⟨.streamData (item.chunk id), item.retransmitCount⟩ ∧
        m' = m.put id { s with send := send } := by
  unfold StreamManager.takeSendable at h
  simp only [Option.bind_eq_bind, Option.bind_eq_some_iff, Prod.exists] at h
  obtain ⟨id, s, hfind, item, send, hpop, heq⟩ := h
  cases heq
  obtain ⟨hsendable, before, after, hlist, hbefore⟩ := List.find?_eq_some_iff_append.1 hfind
  have hs : m.streams[id]? = some s :=
    Std.TreeMap.mem_toList_iff_getElem?_eq_some.1 (List.mem_of_find?_eq_some hfind)
  refine ⟨?_, id, s, item, send, hs, hpop, rfl, rfl⟩
  have hskipped : before.filterMap (fun entry => entry.2.front entry.1) = [] := by
    refine List.filterMap_eq_nil_iff.2 fun entry hentry => front_eq_none.2 ?_
    simpa using hbefore entry hentry
  have hfront : s.front id = some ⟨.streamData (item.chunk id), item.retransmitCount⟩ := by
    unfold SendStream.popSendable at hpop
    split at hpop
    · cases hpop
    · next rest hqueue =>
        cases hpop
        exact front_of_queue hqueue hsendable
  unfold StreamManager.fronts
  rw [hlist, List.filterMap_append, hskipped, List.nil_append,
    List.filterMap_cons_some (f := fun entry : Nat × StreamRecord => entry.2.front entry.1) hfront]
  rfl

/-- A chunk put back is the front of its stream again. -/
theorem fronts_requeue {id : Nat} {s : StreamRecord} {item : PendingData} {send : SendStream}
    (hs : m.streams[id]? = some s) (hpop : s.send.popSendable = some (item, send)) :
    ((m.put id { s with send := send }).put id
      { s with send := send.requeue (item.chunk id) item.retransmitCount }).fronts = m.fronts := by
  refine fronts_congr fun i => ?_
  have hput := congrFun (streams_put (m.put id { s with send := send }) id
    { s with send := send.requeue (item.chunk id) item.retransmitCount }) i
  have hpopped := congrFun (streams_put m id { s with send := send }) i
  rw [hput]
  by_cases hi : i = id
  · rw [hi, Function.update_self, hs, Option.bind_some, Option.bind_some]
    unfold SendStream.popSendable at hpop
    split at hpop
    · cases hpop
    · next rest hqueue =>
        cases hpop
        unfold StreamRecord.front StreamRecord.sendable
        rw [hqueue]
        rfl
  · rw [Function.update_of_ne hi, hpopped, Function.update_of_ne hi]

/-- The connection but for its streams and the number of its next packet. -/
def Connection.restock (c : Connection) (m : StreamManager) (n : Nat) : Connection :=
  { c with streams := m, transport := { c.transport with nextPacketNumber := n } }

/-- The first in line was taken off it, and can be put back where it stood. -/
structure Connection.Took (c : Connection) (q : QueuedFrame) (c₁ : Connection) : Prop where
  first : c.line.head? = some q
  rest : ∃ pending streams, c₁ =
    { c with transport := { c.transport with pendingFrames := pending }, streams := streams }
  back : ∀ n, Ends (requeueCandidate (.frame q)) (c₁.restock c₁.streams n)
    (fun _ c₂ => ∃ m, m.fronts = c.streams.fronts ∧ c₂ = c.restock m n) fun _ _ => False

theorem takeDataCandidate_took (h : c.view.Apart) :
    Ends takeDataCandidate c
      (fun r c₁ => match r with
        | none => c₁ = c ∧ c.line = []
        | some q => c.Took q c₁)
      fun _ _ => False := by
  simp only [takeDataCandidate, ends_bind, ends_get]
  split
  · next q rest hpending =>
      simp only [ends_bind, ends_modifyTransport, ends_pure]
      have hother : ∀ d, q.frame ≠ .streamData d := by
        refine h.pending q ?_
        show q ∈ c.transport.pendingFrames
        rw [hpending]
        exact List.mem_cons_self
      refine ⟨?_, ⟨rest, c.streams, rfl⟩, fun n => ?_⟩
      · unfold Connection.line
        rw [hpending]
        rfl
      · have hback : requeueCandidate (.frame q) = modifyTransport fun t =>
            { t with pendingFrames := ⟨q.frame, q.retransmitCount⟩ :: t.pendingFrames } := by
          show putBack q.frame q.retransmitCount = _
          unfold putBack
          split
          · next d hd => exact absurd hd (hother d)
          · rfl
        rw [hback, ends_modifyTransport]
        refine ⟨c.streams, rfl, ?_⟩
        unfold Connection.restock
        rw [← hpending]
  · next hpending =>
      split
      · next q streams htake =>
          simp only [ends_steps]
          obtain ⟨hfirst, id, s, item, send, hs, hpop, rfl, rfl⟩ := takeSendable_front htake
          refine ⟨?_, ⟨c.transport.pendingFrames, _, rfl⟩, fun n => ?_⟩
          · unfold Connection.line
            rw [hpending]
            exact hfirst
          · simp only [requeueCandidate, putBack, requeueData, ends_onStreams, ends_bind,
              ends_record, ends_modify]
            have hknown := StreamManager.getElem?_put_self c.streams id { s with send := send }
            refine ⟨fun s' hs' => ?_, fun hnone => ?_⟩
            · obtain rfl := Option.some.inj (hknown.symm.trans hs')
              exact ⟨_, fronts_requeue hs hpop, rfl⟩
            · cases hknown.symm.trans hnone
      · next hnone =>
          refine ⟨rfl, ?_⟩
          unfold Connection.line
          rw [hpending, fronts_of_none hnone]
          rfl

/-! ## One round -/

/-- There is no ACK when there is nothing to acknowledge. -/
theorem ranges_of_frame {received : ReceivedPackets} {now ackDelay : Nat}
    (h : received.frame now ackDelay = .ok none) : received.ranges = [] := by
  unfold ReceivedPackets.frame at h
  split at h
  · next hempty => exact List.isEmpty_iff.1 hempty
  · obtain ⟨ranges, _, h⟩ := ok_of_bind h
    obtain ⟨a, _, h⟩ := ok_of_bind h
    cases h

/-- What the first in line waits for does not depend on the rest of the streams. -/
theorem Connection.Took.held {c₂ : Connection} (h : c.Took q c₁) (hdue : c.ackDue = false)
    (hm : m.fronts = c.streams.fronts)
    (hblocked : c.overdraws q = false → c.exceeds q = true)
    (hc₂ : c₂ = c.restock m c.transport.nextPacketNumber) : c₂.Held := by
  subst hc₂
  constructor
  · intro hack
    cases hdue.symm.trans hack
  · intro _ q' hq'
    have hline : (c.restock m c.transport.nextPacketNumber).line = c.line :=
      congrArg (c.transport.pendingFrames ++ ·) hm
    rw [hline, h.first] at hq'
    cases hq'
    exact hblocked

theorem flowBlocks_overdraws (q : QueuedFrame) :
    Ends (flowBlocks (.frame q)) c
      (fun blocked c' => blocked = true → c' = c ∧ c.overdraws q = true) fun _ _ => False := by
  unfold flowBlocks
  split
  · next d count hq =>
      cases hq
      simp only [ends_steps]
      refine ⟨fun hcannot _ => ⟨trivial, hcannot⟩, fun _ => ⟨fun _ => ?_, fun _ => ?_⟩⟩
      · exact Bool.noConfusion
      · exact Bool.noConfusion
  · exact Bool.noConfusion

/-- A round that ends the flush leaves the first in line waiting for a window. -/
theorem flushOnce_held (h : c.view.Apart) :
    Ends flushOnce c (fun more c' => more = false → c'.Held) fun _ _ => True := by
  simp only [flushOnce, takeCandidate, ends_bind, ends_get, ends_ite]
  refine ⟨fun hdue => ?_, fun hdue => ?_⟩
  · simp only [ends_ofExcept, ends_pure]
    refine ⟨fun r hr => ?_, fun _ _ => trivial⟩
    cases r with
    | none =>
        intro _
        refine ⟨fun _ => ranges_of_frame hr, fun hnot => ?_⟩
        cases hdue.symm.trans hnot
    | some a =>
        simp only [Option.map_some, ends_bind, ends_get, ends_ofExcept, ends_ite]
        refine ⟨fun len _ => ⟨fun heliciting => ?_, fun _ => ?_⟩, fun _ _ => trivial⟩
        · cases heliciting
        · split
          · trivial
          · simp only [ends_bind, ends_modifyTransport, flowBlocks, ends_pure, ends_ite, settle,
              ends_modify]
            exact ⟨fun h => absurd h Bool.false_ne_true, fun _ => Bool.noConfusion⟩
  · have hdue : c.ackDue = false := Bool.eq_false_iff.2 hdue
    simp only [ends_pure]
    refine (takeDataCandidate_took h).mono (fun r c₁ hr => ?_) fun _ _ h' => h'.elim
    cases r with
    | none =>
        obtain ⟨rfl, hline⟩ := hr
        intro _
        refine ⟨fun hack => ?_, fun _ q hq => ?_⟩
        · cases hdue.symm.trans hack
        · rw [hline] at hq
          cases hq
    | some q =>
        have htook : c.Took q c₁ := hr
        obtain ⟨pending, streams, rfl⟩ := htook.rest
        simp only [Option.map_some, ends_bind, ends_get, ends_ofExcept, ends_ite]
        refine ⟨fun len hlen => ⟨fun hwindow => ?_, fun _ => ?_⟩, fun _ _ => trivial⟩
        · refine (htook.back c.transport.nextPacketNumber).mono (fun _ c₂ h₂ _ => ?_)
            fun _ _ h' => h'.elim
          obtain ⟨m, hm, rfl⟩ := h₂
          refine htook.held hdue hm (fun _ => ?_) rfl
          unfold Connection.exceeds
          have hlen' : c.encodedLen (c.packetFor (.frame q)) = .ok len := hlen
          rw [hlen']
          exact hwindow
        · split
          · trivial
          · next next hadd =>
              obtain ⟨-, rfl⟩ := checkedAdd_eq_some.1 hadd
              simp only [ends_bind, ends_modifyTransport]
              refine (flowBlocks_overdraws q).mono (fun blocked c₂ hblocked => ?_)
                fun _ _ h' => h'.elim
              simp only [ends_ite, ends_bind, ends_modify, ends_modifyTransport, ends_pure]
              refine ⟨fun h => ?_, fun _ => ?_⟩
              · obtain ⟨rfl, hover⟩ := hblocked h
                refine (htook.back _).mono (fun _ c₃ h₃ _ => ?_) fun _ _ h' => h'.elim
                obtain ⟨m, hm, rfl⟩ := h₃
                refine htook.held hdue hm (fun h => ?_) rfl
                cases Eq.trans (show c.overdraws q = true from hover).symm h
              · exact .of_forall (fun _ _ => Bool.noConfusion) fun _ _ => trivial

/-! ## The whole flush -/

theorem flushLoop_held {n : Nat} (h : c.view.Apart) (hn : c.load < n) :
    Ends (flushLoop n) c (fun _ c' => c'.Held) fun _ _ => True := by
  induction n generalizing c with
  | zero => omega
  | succ n ih =>
      simp only [flushLoop, ends_bind]
      have hapart : Ends flushOnce c (fun _ c' => c'.view.Apart) fun _ _ => True :=
        (@flushOnce_does sampleSuite .other _).mono (fun _ _ he => he.apart h)
          fun _ _ _ => trivial
      refine ((flushOnce_held h).and (flushOnce_load.and hapart)).mono (fun more c' h' => ?_)
        fun _ _ _ => trivial
      obtain ⟨hheld, hload, hapart⟩ := h'
      simp only [ends_ite, ends_pure]
      refine ⟨fun hmore => ih hapart ?_, fun hmore => hheld (Bool.eq_false_iff.2 hmore)⟩
      have hless := hload hmore
      omega

theorem Reached.apart {role : ConnectionRole} {config : ConnectionConfig}
    (h : Reached suite role config c) : c.view.Apart :=
  h.keeps (fun _ _ hunused => initial_apart suite role hunused) Edit.apart

/-- **What a flush that returned `Ok` leaves.** No ACK is due that has something
to acknowledge. And where none is due and the first frame in line is not stream
data beyond the connection's window, everything in line waits only because the
packet of the first would exceed the congestion window. -/
theorem flush_held {role : ConnectionRole} {config : ConnectionConfig}
    (h : Reached suite role config c) :
    Ends flush c
      (fun _ c' =>
        (c'.ackDue = true → c'.transport.received.ranges = []) ∧
        (c'.ackDue = false → (∀ first ∈ c'.line.head?, c'.overdraws first = false) →
          ∀ q ∈ c'.line, ∃ first ∈ c'.line.head?, c'.exceeds first = true))
      fun _ _ => True := by
  simp only [flush, ends_bind, ends_get]
  refine (flushLoop_held h.apart (load_lt_flushFuel c)).mono (fun _ c' hheld => ⟨hheld.ack, ?_⟩)
    fun _ _ _ => trivial
  intro hdue hwindow q hq
  obtain ⟨first, rest, hline⟩ := List.exists_cons_of_ne_nil (List.ne_nil_of_mem hq)
  have hfirst : first ∈ c'.line.head? := by
    rw [hline]
    rfl
  exact ⟨first, hfirst, hheld.first hdue first hfirst (hwindow first hfirst)⟩

/-! ## Two streams and one window -/

/-- A window in which a chunk of a hundred bytes does not fit any more once two
streams have been opened. -/
def narrowConfig : ConnectionConfig where
  initialCongestionWindow := 200
  minCongestionWindow := 200

/-- A client opens two streams and writes much to the first and a byte to the
second. -/
def sampleStalled : List Op :=
  [.onDatagram ⟨.handshake, ⟨ackElicitingFlag⟩, 7, 0, [.serverHello sampleServerHello]⟩,
    .openStream, .openStream, .writeStream 0 (List.replicate 100 97) false,
    .writeStream 2 [97] false]

/-- The chunk of the first stream exceeds the window. -/
theorem flush_held_sample : ∃ c c', Reached sampleSuite .client narrowConfig c ∧
    flush c = .ok () c' ∧ ∃ first ∈ c'.line.head?, c'.exceeds first = true := by
  obtain ⟨c, hc, hp⟩ := of_checks (r := sampleConnection .client narrowConfig)
    (p := fun c => decide (Ends flush (final sampleSuite c sampleStalled)
      (fun _ c' => c'.ackDue = false ∧ c'.line ≠ [] ∧ c'.line.all (!c'.overdraws ·) = true)
      fun _ _ => False)) (by decide +kernel)
  obtain ⟨⟨⟩, c', hrun, hdue, hwaits, hwithin⟩ := (of_decide_eq_true hp).returns
  have hreached := reached_final (sampleConnection_fresh hc) sampleStalled
  obtain ⟨q, hq⟩ := List.exists_mem_of_ne_nil _ hwaits
  refine ⟨_, c', hreached, hrun,
    ((flush_held hreached).ok hrun).2 hdue (fun first hfirst => ?_) q hq⟩
  have hnot := List.all_eq_true.1 hwithin first (List.mem_of_mem_head? hfirst)
  simpa using hnot

/-- **A frame behind a larger one.** The byte of the second stream would fit the
window, and waits. -/
theorem small_chunk_waits : ∃ c c', Reached sampleSuite .client narrowConfig c ∧
    flush c = .ok () c' ∧ c'.ackDue = false ∧ ∃ q ∈ c'.line, c'.overdraws q = false ∧
      ∃ len, c'.encodedLen (c'.packetFor (.frame q)) = .ok len ∧
        c'.transport.congestion.canSend len = true := by
  obtain ⟨c, hc, hp⟩ := of_checks (r := sampleConnection .client narrowConfig)
    (p := fun c => decide (Ends flush (final sampleSuite c sampleStalled)
      (fun _ c' => c'.ackDue = false ∧ c'.line.any (fun q => !c'.overdraws q &&
        checks (c'.encodedLen (c'.packetFor (.frame q))) c'.transport.congestion.canSend) = true)
      fun _ _ => False)) (by decide +kernel)
  obtain ⟨⟨⟩, c', hrun, hdue, hwaits⟩ := (of_decide_eq_true hp).returns
  obtain ⟨q, hq, hfits⟩ := List.any_eq_true.1 hwaits
  rw [Bool.and_eq_true, Bool.not_eq_true'] at hfits
  exact ⟨_, c', reached_final (sampleConnection_fresh hc) sampleStalled, hrun, hdue, q, hq,
    hfits.1, of_checks hfits.2⟩

end DartUdp.Core
