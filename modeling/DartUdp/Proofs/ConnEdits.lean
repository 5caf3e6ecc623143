import DartUdp.Proofs.ConnView
import DartUdp.Proofs.AckRanges

/-!
# Every operation is a sequence of edits

One lemma for each function of the connection says which edits of the view it
makes. They compose to `perform_does`: every operation of a connection is a
sequence of edits, and one that ends well has lost no frame.

On the way to it there is one lemma for each frame (`processFrame_does`), each call
of the application and each timer event (`processTimer_does`). A property that every
edit keeps is then kept by every run (`perform_edits`), and `fresh_edits` says what
a run starts from.
-/

namespace DartUdp.Core

open DartUdp.Lib DartUdp.Udp

variable {suite : Suite} {α β : Type} {L : Prop} {k : Cause} {c c' : Connection} {v v' v'' : View}

theorem Edits.step (h : Edits suite L k v v') (e : Edit suite L k v' v'') : Edits suite L k v v'' :=
  .tail h e

/-- A chain may be made up of the chains of its parts. -/
theorem Does.bind {m : ConnM α} {f : α → ConnM β} (hm : Does suite k m c)
    (hf : ∀ a c', Edits suite False k c.view c'.view → Does suite k (f a) c') :
    Does suite k (m >>= f) c := by
  rw [Does, ends_bind]
  refine hm.mono (fun a c' h => ?_) fun _ _ h => h
  exact (hf a c' h).mono (fun _ _ h' => h.trans h') fun _ _ h' => h.mono.trans h'

/-! ## Views of written connections -/

@[simp] theorem view_timers (t : TimerState) :
    ({ c with timers := t } : Connection).view = c.view :=
  rfl

theorem packetsOf_append (xs ys : List CoreOutput) :
    packetsOf (xs ++ ys) = packetsOf xs ++ packetsOf ys := List.filterMap_append

/-- What is not a packet leaves no trace in the view. -/
theorem view_emit {out : CoreOutput} (h : packetsOf [out] = []) : (c.emit out).view = c.view := by
  unfold Connection.emit Connection.view
  simp only [packetsOf_append, h, List.append_nil]

theorem view_emit_send (p : Packet) :
    (c.emit (.send p)).view = { c.view with sends := c.view.sends ++ [p] } := by
  unfold Connection.emit Connection.view
  simp only [packetsOf_append]
  rfl

theorem view_setState (st : ConnectionState) :
    (c.setState st).view = { c.view with state := st } := by
  unfold Connection.setState
  split
  · rw [view_emit rfl]
    rfl
  · next h =>
      rw [← not_not.1 h]
      rfl

theorem streams_put (m : StreamManager) (id : Nat) (s : StreamRecord) :
    (fun i => (m.put id s).streams[i]?) =
      Function.update (fun i => m.streams[i]?) id (some s) := by
  funext i
  unfold StreamManager.put
  rw [Std.TreeMap.getElem?_insert]
  by_cases h : i = id
  · rw [h, Function.update_self, if_pos (Std.compare_eq_iff_eq.2 rfl)]
  · rw [Function.update_of_ne h, if_neg fun heq => h (Std.compare_eq_iff_eq.1 heq).symm]

theorem StreamManager.getElem?_put_self (m : StreamManager) (id : Nat) (s : StreamRecord) :
    (m.put id s).streams[id]? = some s := by
  simpa using congrFun (streams_put m id s) id

theorem view_put (id : Nat) (s : StreamRecord) :
    ({ c with streams := c.streams.put id s } : Connection).view = c.view.put id s := by
  unfold View.put Connection.view
  simp only [streams_put]

theorem sent_erase (m : Std.TreeMap Nat SentPacket) (n : Nat) :
    (fun i => (m.erase n)[i]?) = Function.update (fun i => m[i]?) n none := by
  funext i
  rw [Std.TreeMap.getElem?_erase]
  by_cases h : i = n
  · rw [h, Function.update_self, if_pos (Std.compare_eq_iff_eq.2 rfl)]
  · rw [Function.update_of_ne h, if_neg fun heq => h (Std.compare_eq_iff_eq.1 heq).symm]

theorem sent_insert (m : Std.TreeMap Nat SentPacket) (n : Nat) (p : SentPacket) :
    (fun i => (m.insert n p)[i]?) = Function.update (fun i => m[i]?) n (some p) := by
  funext i
  rw [Std.TreeMap.getElem?_insert]
  by_cases h : i = n
  · rw [h, Function.update_self, if_pos (Std.compare_eq_iff_eq.2 rfl)]
  · rw [Function.update_of_ne h, if_neg fun heq => h (Std.compare_eq_iff_eq.1 heq).symm]

/-! ## Calls on a part -/

/-- A call on the timers changes nothing but them. -/
theorem ends_onTimers {m : TimerM α} {Q : α → Connection → Prop} {E : CoreError → Connection → Prop}
    (hQ : ∀ a t, Q a { c with timers := t }) (hE : ∀ e t, E e { c with timers := t }) :
    Ends (onTimers m) c Q E := by
  rw [onTimers, ends_zoom]
  unfold Ends
  split
  · exact hQ _ _
  · exact hE _ _

@[simp] theorem ends_modifyTransport {f : TransportState → TransportState}
    {Q : Unit → Connection → Prop} {E : CoreError → Connection → Prop} :
    Ends (modifyTransport f) c Q E ↔ Q () { c with transport := f c.transport } := Iff.rfl

@[simp] theorem ends_modifyHandshake {f : HandshakeState → HandshakeState}
    {Q : Unit → Connection → Prop} {E : CoreError → Connection → Prop} :
    Ends (modifyHandshake f) c Q E ↔ Q () { c with handshake := f c.handshake } := Iff.rfl

@[simp] theorem ends_onStreams {m : StreamsM α} {Q : α → Connection → Prop}
    {E : CoreError → Connection → Prop} :
    Ends (onStreams m) c Q E ↔
      Ends m c.streams (fun a t => Q a { c with streams := t })
        fun e t => E e { c with streams := t } := ends_zoom

@[simp] theorem ends_record {m : StreamManager} {id : Nat} {Q : StreamRecord → StreamManager → Prop}
    {E : CoreError → StreamManager → Prop} :
    Ends (record id) m Q E ↔
      (∀ s, m.streams[id]? = some s → Q s m) ∧
        (m.streams[id]? = none → E (.unknownStream id) m) := by
  simp only [record, ends_bind, ends_get]
  cases m.streams[id]? with
  | none => simp
  | some s => simp

@[simp] theorem ends_ensureEstablished {operation : String} {Q : Unit → Connection → Prop}
    {E : CoreError → Connection → Prop} :
    Ends (ensureEstablished operation) c Q E ↔
      (c.state = .established → Q () c) ∧
      (c.state ≠ .established → E (.invalidState operation) c) := by
  simp only [ensureEstablished, ends_steps]
  tauto

@[simp] theorem ends_ensureData {packetType : PacketType} {Q : Unit → Connection → Prop}
    {E : CoreError → Connection → Prop} :
    Ends (ensureData packetType) c Q E ↔
      (packetType = .data ∧ c.state = .established → Q () c) ∧
        (¬ (packetType = .data ∧ c.state = .established) → E .invalidPacketType c) := by
  simp only [ensureData, ends_steps, Bool.or_eq_true, decide_eq_true_eq]
  tauto

/-! ## Frames put back -/

theorem putBack_ends (frame : Frame) (n : Nat) :
    Ends (putBack frame n) c
      (fun _ c' => c'.view = c.view.putBack frame n ∧
        ∀ d, frame = .streamData d → (c.view.streams d.streamId).isSome)
      fun _ c' => c'.view = c.view ∧
        ∃ d, frame = .streamData d ∧ c.view.streams d.streamId = none := by
  unfold putBack
  split
  · next d =>
      simp only [ends_onStreams, requeueData, ends_bind, ends_record, ends_modify]
      refine ⟨fun s hs => ⟨?_, fun d' hd => ?_⟩, fun hnone => ⟨trivial, d, rfl, hnone⟩⟩
      · rw [view_put, View.putBack]
        have hs' : c.view.streams d.streamId = some s := hs
        simp only [hs']
      · cases hd
        exact Option.isSome_iff_exists.2 ⟨s, hs⟩
  · next hne =>
      refine ⟨?_, fun d hd => absurd hd (hne d)⟩
      unfold View.putBack
      split
      · next d => exact absurd rfl (hne d)
      · rfl

theorem View.putBack_known (v : View) (frame : Frame) (n id : Nat) :
    ((v.putBack frame n).streams id).isSome = (v.streams id).isSome := by
  unfold View.putBack
  split
  · next d =>
      split
      · next s hs =>
          by_cases h : id = d.streamId
          · rw [h, View.put_self, hs]
            rfl
          · rw [View.put_of_ne h]
      · rfl
  · rfl

theorem putBackAll_ends (n : Nat) (frames : List QueuedFrame) :
    Ends (putBackAll n frames) c
      (fun _ c' => c'.view = c.view.putBackAll n frames ∧
        ∀ q ∈ frames, ∀ d, q.frame = .streamData d → (c.view.streams d.streamId).isSome)
      fun _ c' => ∃ m, c'.view = c.view.putBackAll n (frames.take m) := by
  induction frames generalizing c with
  | nil => exact ⟨rfl, fun q hq => absurd hq List.not_mem_nil⟩
  | cons q rest ih =>
      simp only [putBackAll, ends_bind]
      refine (putBack_ends q.frame n).mono (fun _ c₁ h => ?_) fun _ c₁ h => ⟨0, h.1⟩
      refine ih.mono (fun _ c₂ h' => ⟨?_, fun q' hq' d hd => ?_⟩) fun _ c₂ h' => ?_
      · rw [h'.1, h.1]
        rfl
      · rcases List.mem_cons.1 hq' with rfl | hq'
        · exact h.2 d hd
        · have := h'.2 q' hq' d hd
          rwa [h.1, View.putBack_known] at this
      · obtain ⟨m, hm⟩ := h'
        refine ⟨m + 1, ?_⟩
        rw [hm, h.1]
        rfl

/-- The frames of a packet that was lost go back with a higher count, or are
dropped where the count is used up. -/
theorem requeueLost_ends (frames : List QueuedFrame) (retransmitCount : Nat) :
    Ends (requeueLost frames retransmitCount) c
      (fun _ c' => ∃ n, 0 < n ∧ c'.view = c.view.putBackAll n frames.reverse ∧
        ∀ q ∈ frames, ∀ d, q.frame = .streamData d → (c.view.streams d.streamId).isSome)
      fun _ c' => ∃ n m, 0 < n ∧ c'.view = c.view.putBackAll n (frames.reverse.take m) := by
  simp only [requeueLost, ends_steps]
  have hpos : 0 < min (retransmitCount + 1) u32Max := by
    unfold u32Max
    omega
  refine ⟨fun _ => ⟨1, 0, Nat.one_pos, rfl⟩, fun _ => ?_⟩
  refine (putBackAll_ends _ _).mono (fun _ c' h => ⟨_, hpos, h.1, fun q hq => ?_⟩) fun _ c' h => ?_
  · exact h.2 q (List.mem_reverse.2 hq)
  · obtain ⟨m, hm⟩ := h
    exact ⟨_, m, hpos, hm⟩

/-! ## Acknowledgement and loss -/

theorem view_forget (n : Nat) (g : CongestionController) (r : RttEstimator) (t : TimerState) :
    ({ c with
        transport :=
          { c.transport with sent := c.transport.sent.erase n, congestion := g, rtt := r }
        timers := t } : Connection).view = c.view.forget n := by
  unfold View.forget Connection.view
  simp only [sent_erase]

theorem view_acked (n : Nat) (g : CongestionController) (t : TimerState)
    (acked : List SentPacket) :
    ({ c with
        transport :=
          { c.transport with sent := c.transport.sent.erase n, congestion := g, acked := acked }
        timers := t } : Connection).view = { c.view.forget n with acked := acked } := by
  unfold View.forget Connection.view
  simp only [sent_erase]

theorem removeAcked_does {p : Packet} (ns : List Nat) (sample : Option Nat)
    (hns : ∀ n ∈ ns, ∃ a, .ack a ∈ p.frames ∧ a.covers n = true) :
    Does suite (.packet p) (removeAcked ns sample) c := by
  induction ns generalizing c sample with
  | nil => exact .refl
  | cons n rest ih =>
      simp only [removeAcked, ends_bind, ends_get]
      have hrest : ∀ n' ∈ rest, ∃ a, .ack a ∈ p.frames ∧ a.covers n' = true :=
        fun n' hn' => hns n' (List.mem_cons_of_mem _ hn')
      cases hs : c.transport.sent[n]? with
      | none => exact ih _ hrest
      | some packet =>
          obtain ⟨a, ha, hcov⟩ := hns n List.mem_cons_self
          have hedit : ∀ L, Edit suite L (.packet p) c.view
              { c.view.forget n with acked := c.view.acked ++ [packet] } :=
            fun L => .ack p a n packet rfl ha hcov hs
          refine (ih _ hrest).mono (fun _ c' h => ?_) fun _ c' h => ?_
          · rw [view_acked] at h
            exact .head (hedit _) h
          · rw [view_acked] at h
            exact .head (hedit _) h

/-- A packet given up: its frames go back, or are dropped. -/
theorem requeueLost_does (n : Nat) (packet : SentPacket) (g : CongestionController)
    (r : RttEstimator) (t : TimerState) (hs : c.transport.sent[n]? = some packet) :
    Ends (requeueLost packet.frames packet.retransmitCount)
      { c with
        transport :=
          { c.transport with sent := c.transport.sent.erase n, congestion := g, rtt := r }
        timers := t }
      (fun _ c' => Edits suite False k c.view c'.view)
      fun _ c' => Edits suite True k c.view c'.view := by
  refine (requeueLost_ends _ _).mono (fun _ c' h => ?_) fun _ c' h => ?_
  · obtain ⟨count, hpos, hview, hknown⟩ := h
    rw [view_forget] at hview hknown
    rw [hview]
    exact .single (.lose n count packet hs hpos hknown)
  · obtain ⟨count, m, hpos, hview⟩ := h
    rw [view_forget] at hview
    rw [hview]
    exact .single (.drop n count m packet trivial hs hpos)

theorem removeLost_does (ns : List Nat) : Does suite k (removeLost ns) c := by
  induction ns generalizing c with
  | nil => exact .refl
  | cons n rest ih =>
      simp only [removeLost, ends_bind, ends_get]
      cases hs : c.transport.sent[n]? with
      | none => exact ih
      | some packet =>
          simp only [ends_bind, ends_modify]
          refine (requeueLost_does n packet _ _ _ hs).mono (fun _ c₁ h => ?_) fun _ _ h => h
          exact ih.mono (fun _ _ h' => h.trans h') fun _ _ h' => h.mono.trans h'

theorem applyAck_does {p : Packet} {a : AckFrame} (ha : .ack a ∈ p.frames) :
    Does suite (.packet p) (applyAck a) c := by
  simp only [applyAck, ends_steps, ends_ofExcept]
  refine ⟨fun _ _ => ⟨fun _ => .refl, fun _ => ?_⟩, fun _ _ => .refl⟩
  refine (removeAcked_does _ none fun n hn => ?_).mono (fun sample c₁ h => ?_) fun _ _ h => h
  · exact ⟨a, ha, (List.mem_filter.1 hn).2⟩
  · cases sample with
    | none =>
        exact (removeLost_does _).mono (fun _ _ h' => h.trans h') fun _ _ h' => h.mono.trans h'
    | some sample =>
        exact (removeLost_does _).mono (fun _ _ h' => h.trans h') fun _ _ h' => h.mono.trans h'

theorem processRetransmit_does (n generation : Nat) :
    Does suite k (processRetransmit n generation) c := by
  simp only [processRetransmit, ends_bind, ends_get]
  cases hs : c.transport.sent[n]? with
  | none => exact .refl
  | some packet =>
      simp only [ends_steps, ends_modifyTransport]
      exact ⟨fun _ => .refl, fun _ => requeueLost_does n packet _ _ _ hs⟩

theorem closeOnLimit_does {m : ConnM α} (hm : Does suite k m c) :
    Does suite k (closeOnLimit m) c := by
  simp only [closeOnLimit, ends_tryCatch]
  refine hm.mono (fun _ _ h => h) fun e c₁ h => ?_
  simp only [ends_steps]
  refine ⟨fun _ => ?_, fun _ => h⟩
  rw [view_setState]
  exact h.step (.turn .closing (.inl rfl))

theorem applyAcks_does {p : Packet} (frames : List Frame) (hsub : ∀ f ∈ frames, f ∈ p.frames) :
    Does suite (.packet p) (applyAcks frames) c := by
  induction frames generalizing c with
  | nil => exact .refl
  | cons f rest ih =>
      have hrest : ∀ f ∈ rest, f ∈ p.frames := fun f hf => hsub f (List.mem_cons_of_mem _ hf)
      cases f with
      | ack a =>
          exact (closeOnLimit_does (applyAck_does (hsub _ List.mem_cons_self))).bind
            fun _ _ _ => ih hrest
      | _ => exact ih hrest

/-- `scheduleAck` is about flags and timers only. -/
theorem scheduleAck_ends :
    Ends scheduleAck c (fun _ c' => c'.view = c.view) fun _ c' => c'.view = c.view := by
  simp only [scheduleAck, ends_steps, ends_modifyTransport]
  refine ⟨fun _ => rfl, fun _ => ⟨fun _ => ?_, fun _ => rfl⟩⟩
  exact ends_onTimers (fun _ _ => rfl) fun _ _ => rfl

/-- A program that leaves the view alone. -/
theorem Does.of_quiet {m : ConnM α}
    (h : Ends m c (fun _ c' => c'.view = c.view) fun _ c' => c'.view = c.view) :
    Does suite k m c := by
  refine h.mono (fun _ c' h => ?_) fun _ c' h => ?_
  · rw [h]
  · rw [h]

/-! ## Flushing -/

theorem Takes.frame_eq {q : QueuedFrame} (h : Takes v q v') :
    v'.packetFor q.frame = v.packetFor q.frame ∧ v'.next = v.next ∧ v'.send = v.send := by
  cases h with
  | pending => exact ⟨rfl, rfl, rfl⟩
  | stream => exact ⟨rfl, rfl, rfl⟩

/-- Stream data of a stream that is not there was not taken off a stream. -/
theorem Takes.mem_pending {q : QueuedFrame} {d : StreamData} (h : Takes v q v')
    (hd : q.frame = .streamData d) (hnone : v'.streams d.streamId = none) : q ∈ v.pending := by
  cases h with
  | pending _ rest hp =>
      rw [hp]
      exact List.mem_cons_self
  | stream id s item send hs hpop =>
      cases hd
      rw [View.put_self] at hnone
      cases hnone

theorem takeDataCandidate_ends :
    Ends takeDataCandidate c
      (fun r c' => match r with
        | none => c' = c
        | some q => Takes c.view q c'.view)
      fun _ _ => False := by
  simp only [takeDataCandidate, ends_bind, ends_get]
  split
  · next q rest hp =>
      simp only [ends_bind, ends_modifyTransport, ends_pure]
      exact .pending q rest hp
  · split
    · next q streams htake =>
        simp only [ends_steps]
        unfold StreamManager.takeSendable at htake
        simp only [Option.bind_eq_bind, Option.bind_eq_some_iff, Prod.exists] at htake
        obtain ⟨id, s, hfind, item, send, hpop, heq⟩ := htake
        cases heq
        rw [view_put]
        refine .stream id s item send ?_ hpop
        have hmem := List.mem_of_find?_eq_some hfind
        exact Std.TreeMap.mem_toList_iff_getElem?_eq_some.1 hmem
    · rfl

theorem encodeFrames_of_encodedLen {p : Packet} {n : Nat} (h : c.encodedLen p = .ok n) :
    ∃ payload, encodeFrames p = .ok payload := by
  unfold Connection.encodedLen at h
  split at h
  · cases h
  · next bytes hb =>
      unfold encodePacket at hb
      split at hb
      · cases hb
      · cases hf : encodeFrames p with
        | error e =>
            rw [hf] at hb
            cases hb
        | ok payload => exact ⟨payload, rfl⟩

theorem covers_of_frame {r : ReceivedPackets} {now delay : Nat} {a : AckFrame}
    (h : r.frame now delay = .ok (some a)) (n : Nat) (hc : a.covers n = true) :
    r.ranges.any (·.contains n) = true := by
  unfold ReceivedPackets.frame at h
  split at h
  · cases h
  · cases hr : ackRanges r.ranges with
    | error e =>
        rw [hr] at h
        cases h
    | ok ranges =>
        rw [hr] at h
        have hranges : ranges = r.ranges.insertionSort fun left right => left.before right := by
          unfold ackRanges at hr
          split at hr
          · cases hr
          · unfold fromDescending at hr
            split at hr
            · cases hr
            · split at hr
              · cases hr
              · split at hr
                · cases hr
                  rfl
                · cases hr
        have hpart : a.ranges = ranges := by
          cases ranges with
          | nil => cases h
          | cons range rest =>
              unfold AckFrame.new at h
              simp only [bind, Except.bind, pure, Except.pure] at h
              split at h
              · cases h
              · next heq =>
                  split at heq
                  · cases heq
                  · cases heq
                    cases h
                    rfl
        rw [AckFrame.covers, hpart, hranges, List.any_eq_true] at hc
        obtain ⟨range, hmem, hin⟩ := hc
        rw [List.any_eq_true]
        exact ⟨range, (List.mem_insertionSort _).1 hmem, hin⟩

/-- The candidate of a flush round, and what taking it did. -/
theorem takeCandidate_ends :
    Ends takeCandidate c
      (fun r c' => match r with
        | none => c' = c
        | some (.ack a) => c' = c ∧
            ∀ n, a.covers n = true → c.view.received.any (·.contains n) = true
        | some (.frame q) => Takes c.view q c'.view)
      fun _ c' => c' = c := by
  simp only [takeCandidate, ends_steps, ends_ofExcept]
  refine ⟨fun _ => ⟨fun r hr => ?_, fun _ _ => trivial⟩, fun _ => ?_⟩
  · cases r with
    | none => trivial
    | some a => exact ⟨trivial, covers_of_frame hr⟩
  · refine takeDataCandidate_ends.mono (fun r c' h => ?_) fun _ _ h => h.elim
    cases r with
    | none => exact h
    | some q => exact h

theorem flowBlocks_ends (q : QueuedFrame) :
    Ends (flowBlocks (.frame q)) c
      (fun b c' => match b with
        | true => c' = c
        | false => c'.view = c.view.account q ∧ c'.transport = c.transport ∧
            ∀ d, q.frame = .streamData d →
              c.view.send.canSend d.data.length (q.retransmitCount != 0) = true)
      fun _ _ => False := by
  unfold flowBlocks
  split
  · next d count hq =>
      cases hq
      simp only [ends_steps]
      refine ⟨fun _ => trivial, fun hcan => ?_⟩
      have hflow : ∀ d', Frame.streamData d = .streamData d' →
          c.view.send.canSend d'.data.length (count != 0) = true := by
        intro d' hd
        cases hd
        show c.connectionSend.canSend d.data.length (count != 0) = true
        simpa using hcan
      refine ⟨fun hzero => ?_, fun hne => ⟨?_, trivial, hflow⟩⟩
      · cases hzero
        exact ⟨rfl, trivial, hflow⟩
      · unfold View.account
        split
        · next heq =>
            cases heq
            exact absurd rfl hne
        · rfl
  · next hne =>
      refine ⟨?_, rfl, fun d hd => ?_⟩
      · unfold View.account
        split
        · next d => exact absurd rfl (hne d 0)
        · rfl
      · obtain ⟨frame, count⟩ := q
        cases hd
        exact absurd rfl (hne d count)

theorem recordSent_ends (n len : Nat) (q : QueuedFrame) (he : q.frame.isAckEliciting = true) :
    Ends (recordSent n len q) c
      (fun _ c' => isTracked q.frame = false ∧ c'.view = c.view ∨
        isTracked q.frame = true ∧ ∃ sp : SentPacket, sp.frames = [q] ∧
          sp.retransmitCount = q.retransmitCount ∧ c'.view = c.view.track n sp)
      fun _ c' => c'.view = c.view := by
  unfold recordSent
  split
  · next hq => exact .inl ⟨by rw [hq]; rfl, rfl⟩
  · next hq => exact .inl ⟨by rw [hq]; rfl, rfl⟩
  · next hq => exact .inl ⟨by rw [hq]; rfl, rfl⟩
  · next hc hs ha =>
      have htracked : isTracked q.frame = true := by
        unfold isTracked
        split
        · next h => exact absurd h (hc _)
        · next h => exact absurd h (hs _)
        · next h => exact absurd h (ha _)
        · exact he
      simp only [ends_bind, ends_get, ends_modifyTransport]
      refine ends_onTimers (fun timer t => .inr ⟨htracked, ?_⟩) fun _ _ => rfl
      refine ⟨⟨n, c.now, len, [q], q.retransmitCount, timer,
        (c.transport.generation + 1) % 2 ^ 32⟩, rfl, rfl, ?_⟩
      unfold View.track Connection.view
      simp only [sent_insert]

theorem isTracked_of_not_eliciting {f : Frame} (h : f.isAckEliciting = false) :
    isTracked f = false := by
  cases f with
  | ack => rfl
  | retry => rfl
  | _ => cases h

theorem settle_ends (n len : Nat) (q : QueuedFrame) :
    Ends (settle n len (.frame q)) c
      (fun _ c' => isTracked q.frame = false ∧ c'.view = c.view ∨
        isTracked q.frame = true ∧ ∃ sp : SentPacket, sp.frames = [q] ∧
          sp.retransmitCount = q.retransmitCount ∧ c'.view = c.view.track n sp)
      fun _ c' => c'.view = c.view := by
  simp only [settle, ends_steps, ends_modifyTransport]
  refine ⟨fun he => ?_, fun hne => .inl ⟨?_, trivial⟩⟩
  · exact (recordSent_ends n len q he).mono (fun _ _ h => h) fun _ _ h => h
  · exact isTracked_of_not_eliciting (by simpa using hne)

theorem View.putBack_next_eq (v : View) (f : Frame) (count : Nat) :
    (v.putBack f count).next = v.next := by
  unfold View.putBack
  split
  · split <;> rfl
  · rfl

theorem View.putBack_next (v : View) (f : Frame) (count n m : Nat) :
    ({ ({ v with next := n } : View).putBack f count with next := m } : View) =
      { v.putBack f count with next := m } := by
  unfold View.putBack
  split
  · dsimp only
    split <;> rfl
  · rfl

/-- What a round of a flush that ends well does, and whether the flush goes on. -/
inductive Round (v : View) : Bool → View → Prop
  | idle : Round v false v
  | back (q : QueuedFrame) (v₁ : View) (ht : Takes v q v₁) :
      Round v false (v₁.putBack q.frame q.retransmitCount)
  | ack (a : AckFrame) (hc : ∀ n, a.covers n = true → v.received.any (·.contains n) = true)
      (hnext : v.next < u64Max) : Round v true (v.ship ⟨.data, .empty, v.id, v.next, [.ack a]⟩)
  | sent (q : QueuedFrame) (v₁ v₂ : View) (ht : Takes v q v₁)
      (henc : ∃ payload, encodeFrames (v.packetFor q.frame) = .ok payload)
      (hflow : ∀ d, q.frame = .streamData d →
        v.send.canSend d.data.length (q.retransmitCount != 0) = true)
      (hnext : v.next < u64Max)
      (h : isTracked q.frame = false ∧ v₂ = (v₁.account q).ship (v.packetFor q.frame) ∨
        isTracked q.frame = true ∧ ∃ sp : SentPacket, sp.frames = [q] ∧
          sp.retransmitCount = q.retransmitCount ∧
          v₂ = ((v₁.account q).ship (v.packetFor q.frame)).track v.next sp) :
      Round v true v₂

/-- Where a round of a flush fails: before it takes a frame; at a frame too large,
or without a number for its packet; at stream data that has no stream to go back
to; or with the packet already out. -/
inductive Breaks (v : View) (c : Connection) : Prop
  | idle (h : c.view = v)
  | large (q : QueuedFrame) (e : CoreError) (ht : Takes v q c.view)
      (h : c.encodedLen (c.packetFor (.frame q)) = .error e)
  | spent (q : QueuedFrame) (ht : Takes v q c.view) (h : u64Max < v.next + 1)
  | homeless (q : QueuedFrame) (v₁ : View) (next : Nat) (ht : Takes v q v₁)
      (hd : ∃ d, q.frame = .streamData d ∧ v₁.streams d.streamId = none)
      (hn : v.next ≤ next) (h : c.view = { v₁ with next := next })
  | sent (q : QueuedFrame) (v₁ : View) (ht : Takes v q v₁)
      (henc : ∃ payload, encodeFrames (v.packetFor q.frame) = .ok payload)
      (hflow : ∀ d, q.frame = .streamData d →
        v.send.canSend d.data.length (q.retransmitCount != 0) = true)
      (hnext : v.next < u64Max) (h : c.view = (v₁.account q).ship (v.packetFor q.frame))

/-- A frame taken and put back at once. -/
theorem requeueCandidate_ends {q : QueuedFrame} (ht : Takes v q c.view) :
    Ends (requeueCandidate (.frame q)) c (fun _ c' => Round v false c'.view)
      fun _ c' => Breaks v c' := by
  refine (putBack_ends q.frame q.retransmitCount).mono (fun _ c' h => ?_) fun _ c' h => ?_
  · rw [h.1]
    exact .back q _ ht
  · obtain ⟨_, hnext, _⟩ := ht.frame_eq
    exact .homeless q c.view v.next ht h.2 le_rfl (h.1.trans (by rw [← hnext]))

/-- A frame taken, whose packet then finds the connection's window closed: it
goes back and the packet number with it. -/
theorem requeueBlocked_ends {q : QueuedFrame} {n : Nat} (ht : Takes v q c.view)
    (hn : n = c.transport.nextPacketNumber + 1) :
    Ends (requeueCandidate (.frame q))
      { c with transport := { c.transport with nextPacketNumber := n } }
      (fun _ c' => Round v false
        ({ c' with
            transport :=
              { c'.transport with
                nextPacketNumber := c'.transport.nextPacketNumber - 1 } } : Connection).view)
      fun _ c' => Breaks v c' := by
  obtain ⟨_, hnext, _⟩ := ht.frame_eq
  refine (putBack_ends q.frame q.retransmitCount).mono (fun _ c' h => ?_) fun _ c' h => ?_
  · have hnum : c'.transport.nextPacketNumber = n :=
      (congrArg View.next h.1).trans (View.putBack_next_eq _ _ _)
    have hview : ({ c' with
        transport :=
          { c'.transport with
            nextPacketNumber := c'.transport.nextPacketNumber - 1 } } : Connection).view =
        c.view.putBack q.frame q.retransmitCount := by
      have hpb := View.putBack_next c.view q.frame q.retransmitCount n
        c.transport.nextPacketNumber
      have hv : (c.view.putBack q.frame q.retransmitCount).next = c.transport.nextPacketNumber :=
        View.putBack_next_eq _ _ _
      calc
        _ = ({ c'.view with next := c.transport.nextPacketNumber } : View) := by
            rw [hnum, hn]
            rfl
        _ = { c.view.putBack q.frame q.retransmitCount with
              next := c.transport.nextPacketNumber } := by
            rw [h.1]
            exact hpb
        _ = c.view.putBack q.frame q.retransmitCount := by rw [← hv]
    rw [hview]
    exact .back q _ ht
  · refine .homeless q c.view n ht h.2 ?_ h.1
    rw [hn, ← hnext]
    exact Nat.le_succ _

/-- One round of a flush. -/
theorem flushOnce_ends :
    Ends flushOnce c (fun more c' => Round c.view more c'.view) fun _ c' => Breaks c.view c' := by
  simp only [flushOnce, ends_bind]
  refine takeCandidate_ends.mono (fun r c₁ h => ?_) fun _ c₁ h => .idle (congrArg _ h)
  rcases r with _ | a | q
  · cases h
    exact .idle
  · obtain ⟨rfl, hcov⟩ := h
    simp only [ends_bind, ends_get, ends_ofExcept, ends_ite]
    refine ⟨fun len _ => ⟨fun h => absurd h (by simp [Candidate.outbound, Frame.isAckEliciting]),
      fun _ => ?_⟩, fun _ _ => .idle rfl⟩
    split
    · exact .idle rfl
    · next next hadd =>
        obtain ⟨hmax, rfl⟩ := checkedAdd_eq_some.1 hadd
        simp only [ends_bind, ends_modifyTransport, flowBlocks, ends_pure, ends_ite]
        refine ⟨fun h => absurd h Bool.false_ne_true, fun _ => ?_⟩
        simp only [ends_modify, settle]
        have hack : Round c₁.view true _ := .ack a hcov hmax
        convert hack using 1
        unfold View.ship Connection.view
        simp only [Connection.emit, packetsOf_append]
        rfl
  · have ht : Takes c.view q c₁.view := h
    obtain ⟨hpacket, hnext, hsend⟩ := ht.frame_eq
    simp only [ends_bind, ends_get, ends_ofExcept, ends_ite]
    refine ⟨fun len hlen => ⟨fun _ => ?_, fun _ => ?_⟩, fun e he => .large q e ht he⟩
    · simp only [ends_pure]
      exact requeueCandidate_ends ht
    · split
      · next hnone =>
          refine .spent q ht ?_
          unfold checkedAdd at hnone
          split at hnone
          · cases hnone
          · next hmax =>
              rw [← hnext]
              exact Nat.lt_of_not_le hmax
      · next next hadd =>
          obtain ⟨hmax, rfl⟩ := checkedAdd_eq_some.1 hadd
          rw [show c₁.transport.nextPacketNumber = c.view.next from hnext] at hmax
          simp only [ends_bind, ends_modifyTransport]
          refine (flowBlocks_ends q).mono (fun b c₂ hb => ?_) fun _ _ h => h.elim
          cases b with
          | true =>
              cases hb
              simp only [ends_ite, ends_bind, ends_modifyTransport, ends_pure]
              exact ⟨fun _ => requeueBlocked_ends ht rfl, fun h => absurd trivial h⟩
          | false =>
              obtain ⟨hview, _, hflow⟩ := hb
              simp only [ends_ite, ends_bind, ends_modify, ends_pure]
              refine ⟨fun h => absurd h Bool.false_ne_true, fun _ => ?_⟩
              have hflow' : ∀ d, q.frame = .streamData d →
                  c.view.send.canSend d.data.length (q.retransmitCount != 0) = true := by
                intro d hd
                rw [← hsend]
                exact hflow d hd
              have henc : ∃ payload, encodeFrames (c.view.packetFor q.frame) = .ok payload := by
                rw [← hpacket]
                exact encodeFrames_of_encodedLen hlen
              have hship : (c₂.emit (.send (c₁.packetFor (.frame q)))).view =
                  (c₁.view.account q).ship (c.view.packetFor q.frame) := by
                rw [view_emit_send, hview, ← hpacket]
                unfold View.account View.ship
                split <;> rfl
              have hnum : (c₁.packetFor (.frame q)).packetNumber = c.view.next := hnext
              refine (settle_ends _ _ q).mono (fun _ c₃ h => ?_) fun _ c₃ h => ?_
              · refine .sent q _ _ ht henc hflow' hmax ?_
                rw [← hship, ← hnum]
                exact h
              · exact .sent q _ ht henc hflow' hmax (h.trans hship)

/-- What fails loses no more than the frame it took. -/
theorem Breaks.edits (h : Breaks v c) : Edits suite True k v c.view := by
  have hlost : ∀ {q : QueuedFrame}, Takes v q c.view → Edits suite True k v c.view := by
    intro q ht
    obtain ⟨_, hnext, _⟩ := ht.frame_eq
    have he : Edit suite True k v { c.view with next := v.next } :=
      .lost q c.view v.next trivial ht (.inl rfl)
    rw [← hnext] at he
    exact .single he
  cases h with
  | idle h => rw [h]
  | large q e ht => exact hlost ht
  | spent q ht => exact hlost ht
  | homeless q v₁ next ht hd hn h =>
      obtain ⟨d, hd, hnone⟩ := hd
      rw [h]
      exact .single (.lost q v₁ next trivial ht (.inr ⟨hn, ht.mem_pending hd hnone, d, hd⟩))
  | sent q v₁ ht henc hflow hnext h =>
      rw [h]
      exact .single (.pass q v₁ ht henc hflow (.inl trivial) hnext)

theorem flushOnce_does : Does suite k flushOnce c := by
  refine flushOnce_ends.mono (fun more c' h => ?_) fun _ _ h => h.edits
  generalize c'.view = v' at h
  cases h with
  | idle => exact .refl
  | back q v₁ ht => exact .single (.back q v₁ ht)
  | ack a hc hnext => exact .single (.sendAck a hc hnext)
  | sent q v₁ v₂ ht henc hflow hnext h =>
      rcases h with ⟨htracked, rfl⟩ | ⟨htracked, sp, hframes, hcount, rfl⟩
      · exact .single (.pass q v₁ ht henc hflow (.inr htracked) hnext)
      · exact .single (.emit q v₁ sp ht henc hflow hframes hcount htracked hnext)

theorem flushLoop_does (n : Nat) : Does suite k (flushLoop n) c := by
  induction n generalizing c with
  | zero => exact .refl
  | succ n ih =>
      refine flushOnce_does.bind fun b c' _ => ?_
      simp only [ends_ite, ends_pure]
      exact ⟨fun _ => ih, fun _ => .refl⟩

theorem flush_does : Does suite k flush c := flushLoop_does _

/-! ## The handshake -/

theorem activateCrypto_ends :
    Ends activateCrypto c
      (fun _ c' => (∃ keys, c.view.keys = some keys) ∧ c'.view = c.view ∨
        c.view.keys = none ∧ ∃ keys, c.handshake.sessionKeys = some keys ∧
          c'.view = { c.view with keys := some keys })
      fun _ c' => c' = c ∧ c.handshake.sessionKeys = none := by
  simp only [activateCrypto, ends_steps]
  refine ⟨fun hsome => .inl ⟨?_, trivial⟩, fun hnone => ?_⟩
  · obtain ⟨crypto, hcrypto⟩ := Option.isSome_iff_exists.1 hsome
    exact ⟨crypto.keys, by rw [Connection.view, hcrypto]; rfl⟩
  · split
    · next h => exact ⟨rfl, h⟩
    · next keys hkeys =>
        refine .inr ⟨?_, keys, hkeys, rfl⟩
        rw [Connection.view, Option.not_isSome_iff_eq_none.1 hnone]
        rfl

/-- The nonce a client sent before, if any, is the one it sends now. -/
def SameNonce (h : HandshakeState) (hello : ClientHello) : Prop :=
  ∀ nonce, h.peerClientNonce = some nonce → nonce = hello.clientNonce

theorem receiveClientHello_ends (suite : Suite) (packetType : PacketType) (hello : ClientHello) :
    Ends (receiveClientHello suite packetType hello) c
      (fun r c' => c.role = .server ∧ packetType = .initial ∧ SameNonce c.handshake hello ∧
        ∃ keys, c.handshake.Shares suite hello.clientPublicKey
            (c.handshake.serverTranscript suite hello) keys ∧
          r.1 = .serverHello ((c.handshake.meetClient hello).serverHello suite
            (c.view.hearClient hello).config keys hello) ∧
          c'.view = { c.view.hearClient hello with
            handshake :=
              { c.handshake.meetClient hello with
                transcriptHash := some (c.handshake.serverTranscript suite hello)
                sessionKeys := some keys } } ∧
          (∀ st, r.2.1 = some st → c.state = .idle ∧ st = .handshaking) ∧
          r.2.2 = if c.state ≠ .established then some hello.initialConnectionWindow else none)
      fun _ c' => c'.view = c.view ∨
        c.role = .server ∧ packetType = .initial ∧ SameNonce c.handshake hello ∧
          c'.view = c.view.hearClient hello := by
  simp only [receiveClientHello, ends_steps, ends_modifyHandshake, ends_ofExcept]
  refine ⟨fun _ => .inl trivial, fun hrole => ⟨fun _ => .inl trivial, fun hnonce => ?_⟩⟩
  obtain ⟨hserver, htype⟩ : c.role = .server ∧ packetType = .initial := by
    simp at hrole
    exact hrole
  have hsame : SameNonce c.handshake hello := by
    intro nonce hn
    rw [hn] at hnonce
    simpa using hnonce
  have hnext : ∀ st, (if c.state = .idle then some ConnectionState.handshaking else none) =
      some st → c.state = .idle ∧ st = .handshaking := by
    intro st hst
    split at hst
    · next hidle =>
        cases hst
        exact ⟨hidle, rfl⟩
    · cases hst
  refine ⟨fun hst => ?_, fun hst => ?_⟩
  · have hhear : c.view.hearClient hello =
        { c.view with
          handshake := c.handshake.meetClient hello
          config := c.config.shrink hello.maxDatagramSize } := by
      unfold View.hearClient
      rw [if_neg (show c.view.state ≠ .established from hst)]
      rfl
    rw [hhear]
    refine ⟨fun secret hsecret =>
        ⟨fun keys hkeys => ?_, fun _ _ => .inr ⟨hserver, htype, hsame, rfl⟩⟩,
      fun _ _ => .inr ⟨hserver, htype, hsame, rfl⟩⟩
    exact ⟨hserver, htype, hsame, keys, ⟨secret, hsecret, hkeys⟩, rfl, rfl, hnext, trivial⟩
  · have hhear : c.view.hearClient hello =
        { c.view with handshake := c.handshake.meetClient hello } := by
      unfold View.hearClient
      rw [if_pos (show c.view.state = .established from not_not.1 hst)]
      rfl
    rw [hhear]
    refine ⟨fun secret hsecret =>
        ⟨fun keys hkeys => ?_, fun _ _ => .inr ⟨hserver, htype, hsame, rfl⟩⟩,
      fun _ _ => .inr ⟨hserver, htype, hsame, rfl⟩⟩
    exact ⟨hserver, htype, hsame, keys, ⟨secret, hsecret, hkeys⟩, rfl, rfl, hnext, trivial⟩

theorem enterState_does (nextState : Option ConnectionState)
    (hnext : ∀ st, nextState = some st → c.state = .idle ∧ st = .handshaking)
    (hkeys : c.handshake.sessionKeys.isSome) :
    Does suite k (enterState nextState) c := by
  cases nextState with
  | none => exact .refl
  | some st =>
      obtain ⟨hidle, rfl⟩ := hnext st rfl
      simp only [enterState, ends_bind, ends_get]
      refine ends_onTimers (fun _ t => ?_) fun _ t => .refl
      rw [ends_modify, view_setState]
      exact .single (.turn .handshaking (.inr (.inr ⟨hidle, rfl, hkeys⟩)))

theorem processClientHello_does (suite : Suite) {p : Packet} {hello : ClientHello}
    (hf : .clientHello hello ∈ p.frames) :
    Does suite (.packet p) (processClientHello suite p.packetType hello) c := by
  simp only [processClientHello, ends_bind]
  refine (receiveClientHello_ends suite p.packetType hello).mono (fun r c₁ h => ?_) fun _ c₁ h => ?_
  · obtain ⟨frame, nextState, maxOffset⟩ := r
    obtain ⟨hrole, htype, hnonce, keys, hkeys, hframe, hview, hnext, hmax⟩ := h
    simp only [ends_steps, ends_modifyHandshake]
    -- The parameters are taken over, then the answer is stored and queued.
    have hanswer : ({ c₁.view with
        handshake := { c₁.view.handshake with frame := some frame }
        send := c₁.view.send.learn maxOffset } : View) =
        c.view.answerClient suite hello keys := by
      have hmax' : maxOffset =
          if c.state ≠ .established then some hello.initialConnectionWindow else none := hmax
      rw [hview, show frame = _ from hframe, hmax']
      unfold View.answerClient
      by_cases hst : c.state = .established
      · rw [if_neg (not_not.2 hst), if_pos (show c.view.state = .established from hst)]
        rfl
      · rw [if_pos hst, if_neg (show c.view.state ≠ .established from hst)]
        rfl
    have hstored : ∀ L, Edits suite L (.packet p) c.view
        (({ c₁.view with
          handshake := { c₁.view.handshake with frame := some frame }
          send := c₁.view.send.learn maxOffset } : View).enqueue frame) := by
      intro L
      refine Edits.step (.single ?_) (.enqueue frame (.inr rfl))
      rw [hanswer]
      exact .answerClient p hello keys rfl htype hf hrole hnonce hkeys
    have hstate : c₁.state = c.state := congrArg View.state hview
    have hserver : c₁.role = .server := (congrArg View.role hview).trans hrole
    have hnext' : ∀ c₂ : Connection, c₂.state = c₁.state →
        ∀ st, nextState = some st → c₂.state = .idle ∧ st = .handshaking := fun c₂ hc₂ st h =>
      ⟨(hc₂.trans hstate).trans (hnext st h).1, (hnext st h).2⟩
    refine ⟨fun _ => ?_, fun hnot => absurd hserver hnot⟩
    refine activateCrypto_ends.mono (fun _ c₂ h => ?_) fun _ c₂ h => ?_
    · have hpre : ∀ L, Edits suite L (.packet p) c.view c₂.view := by
        intro L
        rcases h with ⟨_, h⟩ | ⟨hnone, keys', hkeys', h⟩
        · rw [h]
          exact hstored L
        · rw [h]
          exact (hstored L).step (.secure keys' hkeys' hnone hserver)
      have hstate₂ : c₂.state = c₁.state := by
        rcases h with ⟨_, h⟩ | ⟨_, keys', _, h⟩
        · exact congrArg View.state h
        · exact congrArg View.state h
      have hkeys₁ : c₁.handshake.sessionKeys = some keys :=
        congrArg (fun v => v.handshake.sessionKeys) hview
      have hkeys₂ : c₂.handshake.sessionKeys = c₁.handshake.sessionKeys := by
        rcases h with ⟨_, h⟩ | ⟨_, keys', _, h⟩
        · exact congrArg (fun v => v.handshake.sessionKeys) h
        · exact congrArg (fun v => v.handshake.sessionKeys) h
      have hsome : c₂.handshake.sessionKeys.isSome := by
        rw [hkeys₂, hkeys₁]
        rfl
      exact (enterState_does nextState (hnext' c₂ hstate₂) hsome).mono
        (fun _ _ h' => (hpre _).trans h') fun _ _ h' => (hpre _).trans h'
    · rw [h.1]
      exact hstored _
  · rcases h with h | ⟨hrole, htype, hnonce, h⟩
    · rw [h]
    · rw [h]
      exact .single (.hearClient p hello rfl htype hf hrole hnonce)

theorem receiveServerHello_ends (suite : Suite) (packetType : PacketType) (hello : ServerHello) :
    Ends (receiveServerHello suite packetType hello) c
      (fun r c' => c.role = .client ∧ c.state = .handshaking ∧
        ∃ nonce keys, c.handshake.clientNonce = some nonce ∧
          c.handshake.Shares suite hello.serverPublicKey
            (c.handshake.clientTranscript suite nonce hello) keys ∧
          keys.verifyFinished suite .server (c.handshake.clientTranscript suite nonce hello)
            hello.serverFinished = .ok () ∧
          c'.view = { c.view.hearServer hello with
            handshake :=
              { c.handshake.meetServer hello with
                transcriptHash := some (c.handshake.clientTranscript suite nonce hello)
                sessionKeys := some keys } } ∧
          r = (.handshakeAck ⟨hello.cookie, keys.finishedTag suite .client
            (c.handshake.clientTranscript suite nonce hello)⟩, hello.initialConnectionWindow))
      fun _ c' => c'.view = c.view ∨
        c.role = .client ∧ c.state = .handshaking ∧ c'.view = c.view.hearServer hello := by
  simp only [receiveServerHello, ends_steps, ends_modifyHandshake]
  refine ⟨fun _ => .inl trivial, fun hst => ?_⟩
  obtain ⟨hrole, hstate⟩ : c.role = .client ∧ c.state = .handshaking := by
    simp at hst
    exact ⟨hst.1.1, hst.2⟩
  split
  · exact .inr ⟨hrole, hstate, rfl⟩
  · next nonce hnonce =>
      simp only [ends_bind, ends_ofExcept, ends_modifyHandshake, ends_pure]
      refine ⟨fun secret hsecret => ⟨fun keys hkeys => ⟨fun _ hver => ?_,
        fun _ _ => .inr ⟨hrole, hstate, rfl⟩⟩, fun _ _ => .inr ⟨hrole, hstate, rfl⟩⟩,
        fun _ _ => .inr ⟨hrole, hstate, rfl⟩⟩
      exact ⟨hrole, hstate, nonce, keys, hnonce, ⟨secret, hsecret, hkeys⟩, hver, rfl, rfl⟩

theorem setState_sessionKeys (st : ConnectionState) :
    (c.setState st).handshake = c.handshake := by
  unfold Connection.setState
  split <;> rfl

/-- A connection with session keys is established with packet keys. -/
theorem activateCrypto_established {keys : SessionKeys}
    (hkeys : c.handshake.sessionKeys = some keys) :
    Ends activateCrypto (c.setState .established)
      (fun _ c' => c'.view =
        { c.view with state := .established, keys := some (c.view.keys.getD keys) })
      fun _ _ => False := by
  refine activateCrypto_ends.mono (fun _ c' h => ?_) fun _ c' h => ?_
  · rw [view_setState] at h
    rcases h with ⟨⟨keys', hsome⟩, h⟩ | ⟨hnone, keys', hkeys', h⟩
    · have hsome : c.view.keys = some keys' := hsome
      rw [h]
      dsimp only
      rw [hsome]
      rfl
    · rw [setState_sessionKeys, hkeys] at hkeys'
      cases hkeys'
      rw [h, show c.view.keys = none from hnone]
      rfl
  · rw [setState_sessionKeys, hkeys] at h
    cases h.2

/-- Establishing with the keys derived before. -/
theorem establish_edit {keys : SessionKeys} (hst : c.state = .handshaking)
    (hkeys : c.handshake.sessionKeys = some keys)
    (hwhy : c.role = .client ∨
      c.role = .server ∧ ∃ p a transcript, k = .packet p ∧ .handshakeAck a ∈ p.frames ∧
        a.cookie = c.handshake.peerCookie ∧ c.handshake.transcriptHash = some transcript ∧
        keys.verifyFinished suite .client transcript a.clientFinished = .ok ()) :
    Ends activateCrypto (c.setState .established)
      (fun _ c' => Edit suite False k c.view c'.view) fun _ _ => False := by
  refine (activateCrypto_established hkeys).mono (fun _ c' h => ?_) fun _ _ h => h
  rw [h]
  exact .establish keys hst hkeys hwhy

theorem processServerHello_does (suite : Suite) {p : Packet} {packetType : PacketType}
    {hello : ServerHello} (hf : .serverHello hello ∈ p.frames) :
    Does suite (.packet p) (processServerHello suite packetType hello) c := by
  simp only [processServerHello, ends_bind]
  refine (receiveServerHello_ends suite packetType hello).mono (fun r c₁ h => ?_) fun _ c₁ h => ?_
  · obtain ⟨hrole, hst, nonce, keys, hnonce, hkeys, hver, hview, rfl⟩ := h
    simp only [ends_modify, ends_modifyHandshake]
    have hstored : ∀ L, Edits suite L (.packet p) c.view
        ((c.view.answerServer suite hello (c.handshake.clientTranscript suite nonce hello)
          keys).enqueue (.handshakeAck ⟨hello.cookie, keys.finishedTag suite .client
            (c.handshake.clientTranscript suite nonce hello)⟩)) := fun L =>
      Edits.step (.single (.answerServer p hello nonce keys rfl hf hrole hst hnonce hkeys hver))
        (.enqueue _ (.inr rfl))
    have hanswer : ({ c₁.view with
        handshake :=
          { c₁.view.handshake with
            frame := some (.handshakeAck ⟨hello.cookie, keys.finishedTag suite .client
              (c.handshake.clientTranscript suite nonce hello)⟩) }
        send := c₁.view.send.setMaxOffset hello.initialConnectionWindow } : View) =
        c.view.answerServer suite hello (c.handshake.clientTranscript suite nonce hello) keys := by
      rw [hview]
      rfl
    rw [← hanswer] at hstored
    refine Ends.mono (@establish_edit suite (.packet p) _ keys ?_ ?_
      (.inl ?_)) (fun _ c₂ h => (hstored False).step h) fun _ _ h => h.elim
    · exact (congrArg View.state hview).trans hst
    · exact congrArg (fun v => v.handshake.sessionKeys) hview
    · exact (congrArg View.role hview).trans hrole
  · rcases h with h | ⟨hrole, hst, h⟩
    · rw [h]
    · rw [h]
      exact .single (.hearServer p hello rfl hf hrole hst)

theorem processHandshakeAck_does (suite : Suite) {p : Packet} {packetType : PacketType}
    {ack : HandshakeAck} (hf : .handshakeAck ack ∈ p.frames) :
    Does suite (.packet p) (processHandshakeAck suite packetType ack) c := by
  simp only [processHandshakeAck, receiveHandshakeAck, ends_steps]
  refine ⟨fun _ => .refl, fun hst => ?_⟩
  obtain ⟨hrole, hstate, hcookie⟩ : c.role = .server ∧ c.state = .handshaking ∧
      ack.cookie = c.handshake.peerCookie := by
    simp at hst
    exact ⟨hst.1.1.1, hst.1.2, hst.2⟩
  split
  · exact .refl
  · next hash hhash =>
      split
      · exact .refl
      · next keys hkeys =>
          simp only [ends_bind, ends_ofExcept, ends_modify]
          refine ⟨fun _ hver => ?_, fun _ _ => .refl⟩
          refine Ends.mono (@establish_edit suite (.packet p) _ _ hstate hkeys
            (.inr ⟨hrole, p, ack, hash, rfl, hf, hcookie, hhash, hver⟩))
            (fun _ _ h => .single h) fun _ _ h => h.elim

theorem processRetry_does (suite : Suite) {p : Packet} {packetType : PacketType} {cookie : Bytes}
    (hf : .retry cookie ∈ p.frames) :
    Does suite (.packet p) (processRetry suite packetType cookie) c := by
  simp only [processRetry, receiveRetry, ends_steps, ends_modifyHandshake]
  refine ⟨fun _ => .refl, fun hst => ⟨fun _ => .refl, fun _ => ?_⟩⟩
  obtain ⟨hrole, hstate⟩ : c.role = .client ∧ c.state = .handshaking := by
    simp at hst
    exact ⟨hst.1.1.1.1, hst.1.1.2⟩
  have hchain : ∀ L, Edits suite L (.packet p) c.view
      ((c.view.retry suite cookie).enqueueFront (.clientHello
        (c.handshake.clientHello suite { c.config with handshakeCookie := cookie }))) := fun L =>
    Edits.step (.single (.retry p cookie rfl hf hrole hstate)) (.enqueueFront _ (.inr rfl))
  exact ends_onTimers (fun _ _ => hchain _) fun _ _ => hchain _

/-! ## The other frames -/

theorem processStreamOpen_does {p : Packet} {packetType : PacketType} {o : StreamOpen}
    (hf : .streamOpen o ∈ p.frames) :
    Does suite (.packet p) (processStreamOpen packetType o) c := by
  simp only [processStreamOpen, ends_steps, ends_ensureData]
  refine ⟨fun hst => ⟨fun _ => .refl, fun _ => ?_⟩, fun _ => .refl⟩
  split
  · simp only [ends_ite, ends_throw, ends_pure]
    exact ⟨fun _ => .refl, fun _ => .refl⟩
  · next hnone =>
      have hs : c.view.streams o.streamId = none := by
        unfold StreamManager.sendWindow at hnone
        exact Option.map_eq_none_iff.1 hnone
      simp only [ends_steps, ends_onStreams, insertStream]
      refine ⟨fun _ => .refl, fun _ => ⟨fun hin => ?_, fun _ => ⟨fun _ => .refl, fun _ => ?_⟩⟩⟩
      · rw [view_emit rfl]
      · rw [view_emit rfl, view_put]
        exact .single (.accept p o rfl hf hst.2 hs)

theorem newDataBytes_ends {m : StreamManager} (d : StreamData) (room : Nat) :
    Ends (newDataBytes d room) m
      (fun n m' => m' = m ∧ ∃ s, m.streams[d.streamId]? = some s ∧
        (s.state ≠ .opened ∧ n = 0 ∨
          s.state = .opened ∧ s.recv.newBytes d.offset d.data = .ok n ∧
            n ≤ room - s.recv.bufferedLen))
      fun _ m' => m' = m := by
  simp only [newDataBytes, ends_steps, ends_record, ends_ofExcept]
  refine ⟨fun s hs => ⟨fun hst => ⟨trivial, s, hs, .inl ⟨hst, trivial⟩⟩, fun hst => ?_⟩,
    fun _ => trivial⟩
  refine ⟨fun n hn => ⟨fun _ => trivial, fun hroom => ?_⟩, fun _ _ => trivial⟩
  exact ⟨trivial, s, hs, .inr ⟨not_not.1 hst, hn, Nat.le_of_not_lt hroom⟩⟩

/-- A stream that is not open takes nothing; an open one runs its insertion. -/
theorem insertData_ends {m : StreamManager} {d : StreamData} {s : StreamRecord}
    (hs : m.streams[d.streamId]? = some s) :
    Ends (insertData d) m
      (fun status m' =>
        s.state ≠ .opened ∧ m' = m ∧ status = ⟨false, false, s.recv.bufferedLen⟩ ∨
        s.state = .opened ∧ ∃ n recv, insertSegment d.offset d.data d.fin s.recv = .ok n recv ∧
          m' = m.put d.streamId { s with recv := recv } ∧
          status = ⟨recv.readable, recv.isFinished, recv.bufferedLen⟩)
      fun e m' => s.state = .opened ∧ ∃ recv,
        insertSegment d.offset d.data d.fin s.recv = .error e recv ∧
          m' = m.put d.streamId { s with recv := recv } := by
  simp only [insertData, ends_steps, ends_record, ends_zoom]
  refine ⟨fun s' hs' => ?_, fun hnone => ?_⟩
  · cases hs.symm.trans hs'
    refine ⟨fun hst => .inl ⟨hst, trivial, rfl⟩, fun hst => ?_⟩
    have hopen := not_not.1 hst
    unfold Ends
    cases hrun : insertSegment d.offset d.data d.fin s.recv with
    | error e recv => exact ⟨hopen, recv, rfl, rfl⟩
    | ok n recv =>
        have hput : (m.put d.streamId { s with recv := recv }).streams[d.streamId]? =
            some { s with recv := recv } := StreamManager.getElem?_put_self _ _ _
        refine ⟨fun s₁ hs₁ => ?_, fun hnone => ?_⟩
        · cases hput.symm.trans hs₁
          exact .inr ⟨hopen, n, recv, rfl, rfl, rfl⟩
        · cases hput.symm.trans hnone
  · cases hs.symm.trans hnone

/-- What follows the insertion of stream data. -/
theorem reportData_does (d : StreamData) (status : StreamDataStatus) (room : Nat)
    (hfin : status.finished = true → ∃ s, c.streams.streams[d.streamId]? = some s ∧
      s.recv.isFinished = true) :
    Does suite k (do
      if status.buffered > room then throw .receiveBufferFull
      if status.readable then modify (·.emit (.streamReadable d.streamId))
      if status.finished && !status.readable then
        modify fun c => { c with streams := c.streams.finish d.streamId }
        modify (·.emit (.streamFinished d.streamId))) c := by
  simp only [ends_steps]
  refine ⟨fun _ => .refl, fun _ => ⟨fun hread => ⟨fun h => ?_, fun _ => ?_⟩,
    fun _ => ⟨fun h => ?_, fun _ => .refl⟩⟩⟩
  · simp [hread] at h
  · rw [view_emit rfl]
  · simp only [Bool.and_eq_true] at h
    obtain ⟨s, hs, hdone⟩ := hfin h.1
    rw [view_emit rfl, StreamManager.finish, hs, view_put]
    exact .single (.finish d.streamId s hs hdone)

theorem processStreamData_does {p : Packet} {packetType : PacketType} {d : StreamData}
    (hf : .streamData d ∈ p.frames) :
    Does suite (.packet p) (processStreamData packetType d) c := by
  simp only [processStreamData, ends_bind, ends_ensureData, ends_get, ends_onStreams]
  refine ⟨fun hst => ?_, fun _ => .refl⟩
  refine (newDataBytes_ends d _).mono (fun n m h => ?_) fun _ m h => ?_
  · obtain ⟨rfl, s, hs, hnew⟩ := h
    split
    · exact .refl
    · next total htotal =>
        obtain ⟨hle, rfl⟩ := checkedAdd_eq_some.1 htotal
        simp only [ends_bind, ends_ofExcept, ends_onStreams]
        refine ⟨fun _ hcheck => ?_, fun _ _ => .refl⟩
        have hroom : c.connectionReceive.uniqueReceived + n ≤ c.connectionReceive.maxOffset := by
          unfold ReceiveFlowControl.check at hcheck
          split at hcheck
          · cases hcheck
          · next hle => exact Nat.le_of_not_lt hle
        have haccount : c.connectionReceive.account none n = .ok
            { c.connectionReceive with
              uniqueReceived := c.connectionReceive.uniqueReceived + n } := by
          unfold ReceiveFlowControl.account
          rw [htotal]
        refine (insertData_ends hs).mono (fun status m' h => ⟨fun flow hflow => ?_,
          fun e herr => ?_⟩) fun e m' h => ?_
        · cases haccount.symm.trans hflow
          rcases h with ⟨hclosed, rfl, rfl⟩ | ⟨hopen, n', recv, hrun, rfl, rfl⟩
          · have hzero : n = 0 := by
              rcases hnew with h | h
              · exact h.2
              · exact absurd h.1 hclosed
            have hview : Edits suite False (.packet p) c.view
                { c.view with
                  receive :=
                    { c.connectionReceive with
                      uniqueReceived := c.connectionReceive.uniqueReceived + n } } := by
              rw [hzero]
              exact .refl
            simp only [Bool.false_and, ends_steps]
            exact ⟨fun _ => hview.mono, fun _ => ⟨fun h => absurd h Bool.false_ne_true, fun _ =>
              ⟨fun h => absurd h Bool.false_ne_true, fun _ => hview⟩⟩⟩
          · have hnew' : s.recv.newBytes d.offset d.data = .ok n ∧
                n ≤ c.config.maxReceiveBuffer - s.recv.bufferedLen := by
              rcases hnew with h | h
              · exact absurd hopen h.1
              · exact h.2
            have hedit : ∀ L, Edits suite L (.packet p) c.view
                ({ c with
                  streams := c.streams.put d.streamId { s with recv := recv }
                  connectionReceive :=
                    { c.connectionReceive with
                      uniqueReceived :=
                        c.connectionReceive.uniqueReceived + n } } : Connection).view := by
              intro L
              have he : Edit suite L (.packet p) c.view _ :=
                .insert p d s n n' recv rfl hf hst.2 hs hopen hnew'.1 hroom hrun hnew'.2
              rw [← view_put] at he
              exact .single he
            rw [ends_modify]
            refine Ends.mono (reportData_does d _ _ fun hfin => ⟨{ s with recv := recv }, ?_, hfin⟩)
              (fun _ _ h => (hedit _).trans h) fun _ _ h => (hedit _).trans h
            exact StreamManager.getElem?_put_self _ _ _
        · cases haccount.symm.trans herr
        · obtain ⟨hopen, recv, hrun, rfl⟩ := h
          rw [view_put]
          exact .single (.reject p d s e recv trivial rfl hf hs hopen hrun)
  · rw [h]

theorem processResetStream_does {p : Packet} {packetType : PacketType} {r : ResetStream}
    (hf : .resetStream r ∈ p.frames) :
    Does suite (.packet p) (processResetStream packetType r) c := by
  simp only [processResetStream, ends_bind, ends_ensureData, ends_onStreams, resetRecord,
    ends_record, ends_modify]
  refine ⟨fun _ => ⟨fun s hs => ?_, fun _ => .refl⟩, fun _ => .refl⟩
  rw [view_emit rfl, view_put]
  exact .single (.reset p r s rfl hf hs)

theorem processMaxStreamData_does {p : Packet} {packetType : PacketType} {u : MaxStreamData}
    (hf : .maxStreamData u ∈ p.frames) :
    Does suite (.packet p) (processMaxStreamData packetType u) c := by
  simp only [processMaxStreamData, ends_bind, ends_ensureData, ends_onStreams, updateSendWindow,
    ends_record, ends_modify]
  refine ⟨fun _ => ⟨fun s hs => ?_, fun _ => .refl⟩, fun _ => .refl⟩
  rw [view_put]
  exact .single (.limit p u s rfl hf hs)

theorem processMaxData_does {p : Packet} {packetType : PacketType} {m : Nat}
    (hf : .maxData m ∈ p.frames) : Does suite (.packet p) (processMaxData packetType m) c := by
  simp only [processMaxData, ends_bind, ends_ensureData, ends_modify]
  exact ⟨fun _ => .single (.grant p m rfl hf), fun _ => .refl⟩

theorem processPing_does {packetType : PacketType} {nonce : Nat} :
    Does suite k (processPing packetType nonce) c := by
  simp only [processPing, ends_bind, ends_ensureData, ends_modify]
  exact ⟨fun _ => .single (.enqueue (.pong nonce) (.inl trivial)), fun _ => .refl⟩

theorem processConnectionClose_does {packetType : PacketType} {frame : ConnectionClose} :
    Does suite k (processConnectionClose packetType frame) c := by
  simp only [processConnectionClose, ends_steps]
  refine ⟨fun _ => .refl, fun _ => ?_⟩
  rw [view_emit rfl, view_setState]
  exact .single (.turn .closed (.inr (.inl rfl)))

theorem processFrame_does (suite : Suite) {p : Packet} {f : Frame} (hf : f ∈ p.frames) :
    Does suite (.packet p) (processFrame suite p.packetType f) c := by
  cases f with
  | clientHello hello => exact processClientHello_does suite hf
  | serverHello hello => exact processServerHello_does suite hf
  | handshakeAck ack => exact processHandshakeAck_does suite hf
  | retry cookie => exact processRetry_does suite hf
  | streamOpen o => exact processStreamOpen_does hf
  | streamData d => exact processStreamData_does hf
  | resetStream r => exact processResetStream_does hf
  | maxStreamData u => exact processMaxStreamData_does hf
  | maxData m => exact processMaxData_does hf
  | ping nonce => exact processPing_does
  | pong nonce => exact .refl
  | connectionClose frame => exact processConnectionClose_does
  | ack a => exact .refl

theorem processFrames_does (suite : Suite) {p : Packet} (frames : List Frame)
    (hsub : ∀ f ∈ frames, f ∈ p.frames) :
    Does suite (.packet p) (processFrames suite p.packetType frames) c := by
  induction frames generalizing c with
  | nil => exact .refl
  | cons f rest ih =>
      have hrest : ∀ f ∈ rest, f ∈ p.frames := fun f hf => hsub f (List.mem_cons_of_mem _ hf)
      simp only [processFrames, ends_ite, ends_bind]
      refine ⟨fun _ => ?_, fun _ => ih hrest⟩
      refine (processFrame_does suite (hsub f List.mem_cons_self)).mono (fun _ c₁ h => ?_)
        fun _ _ h => h
      exact (ih hrest).mono (fun _ _ h' => h.trans h') fun _ _ h' => h.mono.trans h'

/-! ## Datagrams -/

theorem recordReceived_does (p : Packet) : Does suite (.packet p) (recordReceived p) c := by
  simp only [recordReceived, ends_steps, ends_modifyTransport]
  refine ⟨fun _ => .refl, fun hretry => .single ?_⟩
  exact .record p _ rfl (fun n hn => contains_of_record hn) hretry ⟨_, _, rfl⟩

theorem Does.ite {b : Prop} [Decidable b] {m m' : ConnM α} (h : b → Does suite k m c)
    (h' : ¬ b → Does suite k m' c) : Does suite k (if b then m else m') c := by
  rw [Does, ends_ite]
  exact ⟨h, h'⟩

theorem Does.onTimers {m : TimerM α} : Does suite k (onTimers m) c :=
  ends_onTimers (fun _ _ => .refl) fun _ _ => .refl

/-- The end of `on_datagram`. -/
theorem acknowledge_does (p : Packet) :
    Does suite k (do
      if p.frames.any Frame.isAckEliciting then scheduleAck
      flush) c := by
  refine Does.ite (fun _ => ?_) fun _ => flush_does
  exact Does.bind (Does.of_quiet scheduleAck_ends) fun _ _ _ => flush_does

theorem onDatagram_does (suite : Suite) (p : Packet) :
    Does suite (.packet p) (onDatagram suite p) c := by
  simp only [onDatagram]
  rw [Does, ends_bind, ends_get]
  refine Does.ite (fun _ => .refl) fun _ => Does.ite (fun _ => .refl) fun _ => ?_
  refine Does.bind Does.onTimers fun _ _ _ => Does.bind (recordReceived_does p) fun isNew _ _ =>
    Does.bind (applyAcks_does _ fun _ h => h) fun _ _ _ => Does.ite (fun _ => ?_) fun _ => ?_
  · exact Does.bind (processFrames_does suite _ fun _ h => h) fun _ _ _ => acknowledge_does p
  · exact acknowledge_does p

theorem openPacket_keys {crypto crypto' : PacketCrypto} {n : Nat} {ad ciphertext plaintext : Bytes}
    (h : crypto.openPacket suite n ad ciphertext = .ok (plaintext, crypto')) :
    crypto'.keys = crypto.keys := by
  unfold PacketCrypto.openPacket at h
  split at h
  · cases h
  · dsimp only at h
    split at h
    · cases h
    · split at h
      · cases h
      · cases h
        rfl

theorem decodeEncryptedPacket_keys (bytes : Bytes) (max : Nat) (crypto : PacketCrypto) :
    (decodeEncryptedPacket suite bytes max crypto).2.keys = crypto.keys := by
  unfold decodeEncryptedPacket
  dsimp only
  split
  · rfl
  · next header plaintext crypto' hopened =>
      dsimp only
      cases hheader : decodeHeaderAndLengths bytes max with
      | error e =>
          rw [hheader] at hopened
          cases hopened
      | ok header' =>
          rw [hheader] at hopened
          simp only [bind, Except.bind, pure, Except.pure, throw, throwThe, MonadExceptOf.throw]
            at hopened
          repeat' split at hopened
          all_goals first | cases hopened; done | skip
          next hopen =>
            cases hopened
            exact openPacket_keys hopen

/-- Decoding marks the replay window only. -/
theorem decodeDatagram_ends (suite : Suite) (bytes : Bytes) :
    Ends (decodeDatagram suite bytes) c (fun _ c' => c'.view = c.view)
      fun _ c' => c'.view = c.view := by
  simp only [decodeDatagram, ends_steps, ends_ofExcept]
  refine ⟨fun _ _ => ⟨fun _ => ?_, fun _ => ⟨fun _ _ => trivial, fun _ _ => trivial⟩⟩,
    fun _ _ => trivial⟩
  split
  · rfl
  · next crypto hcrypto =>
      simp only [ends_bind, ends_modify, ends_ofExcept]
      have hview : ∀ crypto', crypto'.keys = crypto.keys →
          ({ c with packetCrypto := some crypto' } : Connection).view = c.view := by
        intro crypto' hkeys
        unfold Connection.view
        rw [hcrypto, Option.map_some, Option.map_some, hkeys]
      have hkeys := @decodeEncryptedPacket_keys suite bytes c.config.maxDatagramSize crypto
      exact ⟨fun _ _ => hview _ hkeys, fun _ _ => hview _ hkeys⟩

/-- The packet in a datagram that decodes. -/
def decoded (suite : Suite) (bytes : Bytes) (c : Connection) : Option Packet :=
  answer (decodeDatagram suite bytes) c

/-- The packet of a datagram, if it decodes, makes the connection act. -/
theorem onDatagramBytes_does (suite : Suite) (bytes : Bytes) :
    Does suite ((decoded suite bytes c).elim .other .packet) (onDatagramBytes suite bytes) c := by
  have hdecode := decodeDatagram_ends (c := c) suite bytes
  unfold onDatagramBytes decoded answer
  cases hrun : decodeDatagram suite bytes c with
  | ok p c₁ =>
      rw [Does, Ends, bind_ok hrun, ← hdecode.ok hrun]
      exact onDatagram_does suite p
  | error e c₁ =>
      rw [Does, Ends, bind_error hrun]
      show Edits suite True .other c.view c₁.view
      rw [hdecode.error hrun]

/-! ## Calls of the application -/

theorem view_queue (f : Frame) : (c.queue f).view = c.view.enqueue f := rfl

theorem openStream_does : Does suite .opening openStream c := by
  simp only [openStream, ends_steps, ends_ensureEstablished, ends_onStreams, openLocal]
  refine ⟨fun hst => ⟨fun _ => .refl, fun _ => ?_⟩, fun _ => .refl⟩
  split
  · exact .refl
  · next raw hraw =>
      simp only [ends_steps, insertStream]
      refine ⟨fun hin => ?_, fun hout => ⟨fun _ => .refl, fun _ => ?_⟩⟩
      · refine Ends.mono flush_does (fun _ _ h => .head (.announce _ rfl hst ?_) h)
          fun _ _ h => .head (.announce _ rfl hst ?_) h
        all_goals exact Std.TreeMap.isSome_getElem?_eq_contains.trans hin
      · have hnone : c.view.streams c.streams.nextStreamNumber = none :=
          Std.TreeMap.getElem?_eq_none_of_contains_eq_false (Bool.not_eq_true _ ▸ hout)
        have hopened : ∀ L, Edits suite L .opening c.view
            ((c.view.put c.streams.nextStreamNumber (.new c.streams.nextStreamNumber true
              c.view.peerWindow c.view.streamWindow)).enqueue
                (.streamOpen ⟨c.streams.nextStreamNumber, c.view.peerWindow, true⟩)) := fun L =>
          Edits.step (.single (.opened _ rfl hst hnone)) (.announce _ rfl hst (by simp))
        rw [← view_put] at hopened
        exact Ends.mono flush_does (fun _ _ h => (hopened _).trans h)
          fun _ _ h => (hopened _).trans h

/-- The end of `read_stream`. -/
theorem finishRead_ends (eof : Bool) (id : Nat) (r : ReadResult) :
    Ends (do
      if eof then modify (·.emit (.streamFinished id))
      flush
      return r) c
      (fun r' c' => r' = r ∧ Edits suite False k c.view c'.view)
      fun _ c' => Edits suite True k c.view c'.view := by
  simp only [ends_steps, true_and]
  refine ⟨fun _ => ?_, fun _ => flush_does⟩
  have h : Does suite k flush (c.emit (.streamFinished id)) := flush_does
  rwa [Does, view_emit rfl] at h

/-- A read that finds its stream: what it answers, and the view it leaves to the
flush that follows. -/
theorem readStream_ends (suite : Suite) (id maxLen : Nat) :
    Ends (readStream id maxLen) c
      (fun r c' => ∃ s, c.view.streams id = some s ∧ (∀ e, s.state ≠ .reset e) ∧
        r = ⟨(s.read maxLen).1.data, (s.read maxLen).1.eof⟩ ∧
        Edits suite False .other (c.view.read id maxLen s) c'.view)
      fun _ c' => c'.view = c.view ∧ (∀ s, c.view.streams id = some s → ∃ e, s.state = .reset e) ∨
        ∃ s, c.view.streams id = some s ∧ (∀ e, s.state ≠ .reset e) ∧
          Edits suite True .other (c.view.read id maxLen s) c'.view := by
  simp only [readStream, readRecord, ends_bind, ends_onStreams, ends_record]
  refine ⟨fun s hs => ?_, fun hnone => .inl ⟨trivial, fun s hs => ?_⟩⟩
  · split
    · next e he =>
        refine .inl ⟨rfl, fun s' hs' => ⟨e, ?_⟩⟩
        cases hs.symm.trans hs'
        exact he
    · next hopen =>
        have hlive : ∀ e, s.state ≠ .reset e := fun e he => hopen e he
        have htail : ∀ c₂ : Connection, c₂.view = c.view.read id maxLen s →
            Ends (do
              if (s.read maxLen).1.eof then modify (·.emit (.streamFinished id))
              flush
              return (⟨(s.read maxLen).1.data, (s.read maxLen).1.eof⟩ : ReadResult)) c₂
              (fun r c' => ∃ s, c.view.streams id = some s ∧ (∀ e, s.state ≠ .reset e) ∧
                r = ⟨(s.read maxLen).1.data, (s.read maxLen).1.eof⟩ ∧
                Edits suite False .other (c.view.read id maxLen s) c'.view)
              fun _ c' => c'.view = c.view ∧ (∀ s, c.view.streams id = some s →
                  ∃ e, s.state = .reset e) ∨
                ∃ s, c.view.streams id = some s ∧ (∀ e, s.state ≠ .reset e) ∧
                  Edits suite True .other (c.view.read id maxLen s) c'.view := by
          intro c₂ hc₂
          refine (@finishRead_ends suite .other _ _ id _).mono (fun r c' h => ?_) fun _ c' h => ?_
          · rw [hc₂] at h
            exact ⟨s, hs, hlive, h.1, h.2⟩
          · rw [hc₂] at h
            exact .inr ⟨s, hs, hlive, h⟩
        simp only [ends_steps]
        cases hw : (s.read maxLen).1.windowUpdate with
        | none =>
            refine ends_ite.2 ⟨fun hd => ?_, fun hd => ?_⟩
            · refine htail _ ?_
              simp only [View.read, hw, ← view_put]
              rw [if_neg (by simpa using hd)]
              rfl
            · refine htail _ ?_
              simp only [View.read, hw, ← view_put]
              rw [if_pos (by simpa using hd)]
        | some maxOffset =>
            simp only [ends_bind, ends_modify]
            refine ends_ite.2 ⟨fun hd => ?_, fun hd => ?_⟩
            · refine htail _ ?_
              simp only [View.read, hw, ← view_put]
              rw [if_neg (by simpa using hd)]
              rfl
            · refine htail _ ?_
              simp only [View.read, hw, ← view_put]
              rw [if_pos (by simpa using hd)]
              rfl
  · cases hs.symm.trans hnone

/-- A write its stream accepts, and the view it leaves to the flush that
follows. -/
theorem writeStream_ends (suite : Suite) (id : Nat) (data : Bytes) (fin : Bool) :
    Ends (writeStream id data fin) c
      (fun n c' => ∃ s send maxBuffer maxChunk, c.view.streams id = some s ∧ s.state = .opened ∧
        c.view.state = .established ∧ s.send.write data fin maxBuffer maxChunk = .ok (n, send) ∧
        Edits suite False .other (c.view.put id { s with send := send }) c'.view)
      fun _ c' => c'.view = c.view ∨
        ∃ s send maxBuffer maxChunk n, c.view.streams id = some s ∧ s.state = .opened ∧
          c.view.state = .established ∧ s.send.write data fin maxBuffer maxChunk = .ok (n, send) ∧
          Edits suite True .other (c.view.put id { s with send := send }) c'.view := by
  simp only [writeStream, writeRecord, ends_steps, ends_ensureEstablished, ends_onStreams,
    ends_record, ends_ofExcept]
  refine ⟨fun hst => ⟨fun s hs => ⟨fun _ => .inl trivial, fun hopen => ⟨fun r hr => ?_,
    fun _ _ => .inl trivial⟩⟩, fun _ => .inl trivial⟩, fun _ => .inl trivial⟩
  obtain ⟨n, send⟩ := r
  refine Ends.mono (@flush_does suite .other _) (fun _ c' h => ?_) fun _ c' h => ?_
  · rw [view_put] at h
    exact ⟨s, send, _, _, hs, not_not.1 hopen, hst, hr, h⟩
  · rw [view_put] at h
    exact .inr ⟨s, send, _, _, n, hs, not_not.1 hopen, hst, hr, h⟩

theorem readStream_does (id maxLen : Nat) :
    Does suite (.reading id maxLen) (readStream id maxLen) c := by
  refine (readStream_ends suite id maxLen).mono (fun r c' h => ?_) fun _ c' h => ?_
  · obtain ⟨s, hs, _, _, hedits⟩ := h
    exact .head (.read id maxLen s rfl hs) hedits.anyway
  · rcases h with ⟨hview, _⟩ | ⟨s, hs, _, hedits⟩
    · rw [hview]
    · exact .head (.read id maxLen s rfl hs) hedits.anyway

theorem writeStream_does (id : Nat) (data : Bytes) (fin : Bool) :
    Does suite (.writing id data fin) (writeStream id data fin) c := by
  refine (writeStream_ends suite id data fin).mono (fun n c' h => ?_) fun _ c' h => ?_
  · obtain ⟨s, send, maxBuffer, maxChunk, hs, hopen, hst, hw, hedits⟩ := h
    exact .head (.write id data fin s maxBuffer maxChunk n send rfl hst hs hopen hw)
      hedits.anyway
  · rcases h with hview | ⟨s, send, maxBuffer, maxChunk, n, hs, hopen, hst, hw, hedits⟩
    · rw [hview]
    · exact .head (.write id data fin s maxBuffer maxChunk n send rfl hst hs hopen hw)
        hedits.anyway

theorem close_does (errorCode : Nat) (reason : Bytes) :
    Does suite k (close errorCode reason) c := by
  have hclose : ∀ L, Edits suite L k c.view
      ({ c.view with state := .closing }.enqueue (.connectionClose ⟨errorCode, 0, reason⟩)) :=
    fun L => Edits.step (.single (.turn .closing (.inl rfl))) (.enqueue _ (.inl trivial))
  simp only [close, ends_steps]
  refine ⟨fun _ => .refl, fun _ => ?_⟩
  have hview : (({ c with closeError := some errorCode }.setState .closing).queue
      (.connectionClose ⟨errorCode, 0, reason⟩)).view =
      ({ c.view with state := .closing }.enqueue (.connectionClose ⟨errorCode, 0, reason⟩)) := by
    rw [view_queue, view_setState]
    rfl
  rw [← hview] at hclose
  refine ends_onTimers (fun _ t => ?_) fun _ t => hclose _
  exact Ends.mono flush_does (fun _ _ h => (hclose _).trans h) fun _ _ h => (hclose _).trans h

theorem drainOutput_does : Does suite .draining drainOutput c := by
  simp only [drainOutput, ends_steps]
  exact .single (.drain rfl)

/-! ## Time -/

theorem onHandshakeTimeout_does : Does suite k onHandshakeTimeout c := by
  simp only [onHandshakeTimeout, ends_steps]
  refine ⟨fun _ => .refl, fun _ => ?_⟩
  split
  · exact .refl
  · next frame hframe =>
      simp only [ends_steps, ends_modifyHandshake]
      refine ⟨fun _ => .refl, fun _ => ?_⟩
      have hchain : ∀ L, Edits suite L k c.view
          (({ c.view with
            handshake :=
              { c.view.handshake with
                retries := min (c.handshake.retries + 1) u32Max } } : View).enqueueFront frame) :=
        fun L => Edits.step (.single (.retries _)) (.enqueueFront frame (.inr hframe))
      exact ends_onTimers (fun _ _ => hchain _) fun _ _ => hchain _

theorem processTimer_does (event : TimerEvent) : Does suite k (processTimer event) c := by
  cases event with
  | handshakeTimeout =>
      simp only [processTimer, ends_steps]
      refine ⟨fun _ => ?_, fun _ => .refl⟩
      refine onHandshakeTimeout_does.mono (fun _ c₁ h => ⟨fun _ => ?_, fun _ => h⟩) fun _ _ h => h
      exact (close_does _ _).mono (fun _ _ h' => h.trans h') fun _ _ h' => h.mono.trans h'
  | retransmit n generation => exact closeOnLimit_does (processRetransmit_does n generation)
  | ackDelay =>
      simp only [processTimer, ends_modifyTransport, TransportState.onAckTimer]
      split <;> exact .refl
  | keepalive =>
      simp only [processTimer, ends_steps]
      refine ⟨fun _ => ?_, fun _ => ?_⟩
      · simp only [ends_modifyTransport]
        have hping : ∀ L, Edits suite L k c.view
            (c.view.enqueue (.ping ((c.transport.lastPingNonce + 1) % 2 ^ 64))) := fun L =>
          .single (.enqueue _ (.inl trivial))
        split
        · exact ends_onTimers (fun _ _ => hping _) fun _ _ => hping _
        · exact hping _
      · split
        · exact Does.onTimers
        · exact .refl
  | idleTimeout =>
      simp only [processTimer, ends_steps]
      exact ⟨fun _ => close_does _ _, fun _ => .refl⟩
  | closeTimeout =>
      simp only [processTimer, ends_modify]
      rw [view_emit rfl, view_setState]
      exact .single (.turn .closed (.inr (.inl rfl)))

theorem processTimers_does (events : List TimerEvent) : Does suite k (processTimers events) c := by
  induction events generalizing c with
  | nil => exact .refl
  | cons event rest ih =>
      simp only [processTimers, ends_bind, ends_modify]
      exact ends_bind.1 (Does.bind (c := { c with timers := c.timers.clearSlot event })
        (processTimer_does event) fun _ _ _ => ih)

theorem advanceTime_does (elapsed : Nat) : Does suite k (advanceTime elapsed) c := by
  simp only [advanceTime, ends_steps]
  refine ⟨fun _ => .refl, fun _ => ?_⟩
  refine ends_onTimers (fun events t => ?_) fun _ _ => .refl
  exact ends_bind.1 (Does.bind (c := { c with now := c.now + elapsed, timers := t })
    (processTimers_does events) fun _ _ _ => flush_does)

/-! ## Operations and runs -/

/-- What an operation makes the connection act on. -/
def cause (suite : Suite) (c : Connection) : Op → Cause
  | .onDatagram packet => .packet packet
  | .onDatagramBytes bytes => (decoded suite bytes c).elim .other .packet
  | .advanceTime _ => .other
  | .openStream => .opening
  | .writeStream id data fin => .writing id data fin
  | .readStream id maxLen => .reading id maxLen
  | .close _ _ => .other
  | .drainOutput => .draining

/-- Every operation is a sequence of edits, and one that ends well loses no
frame. -/
theorem perform_does (suite : Suite) (op : Op) :
    Does suite (cause suite c op) (perform suite op) c := by
  cases op with
  | onDatagram p => exact Does.bind (onDatagram_does suite p) fun _ _ _ => .refl
  | onDatagramBytes bytes => exact Does.bind (onDatagramBytes_does suite bytes) fun _ _ _ => .refl
  | advanceTime elapsed => exact Does.bind (advanceTime_does elapsed) fun _ _ _ => .refl
  | openStream => exact ends_map.2 openStream_does
  | writeStream id data fin => exact ends_map.2 (writeStream_does id data fin)
  | readStream id maxLen => exact ends_map.2 (readStream_does id maxLen)
  | close errorCode reason => exact Does.bind (close_does errorCode reason) fun _ _ _ => .refl
  | drainOutput => exact ends_map.2 drainOutput_does

/-- Whichever way an operation ends, the view was only edited. -/
theorem perform_edits (suite : Suite) (op : Op) (c : Connection) :
    Edits suite True (cause suite c op) c.view (after (perform suite op) c).view :=
  Ends.after (P := fun c' => Edits suite True _ c.view c'.view)
    ((perform_does suite op).mono (fun _ _ h => h.mono) fun _ _ h => h)

/-- The view of a connection before its constructor has sent anything: a client
has its hello ready. -/
def View.initial (suite : Suite) (role : ConnectionRole) (id : Nat) (config : ConnectionConfig)
    (handshake : HandshakeState) : View where
  role := role
  id := id
  state := match role with
    | .client => .handshaking
    | .server => .idle
  config := config
  handshake := match role with
    | .client =>
        { handshake with
          clientNonce := some handshake.localNonce
          frame := some (.clientHello (handshake.clientHello suite config)) }
    | .server => handshake
  keys := none
  streams := fun _ => none
  pending := match role with
    | .client => [⟨.clientHello (handshake.clientHello suite config), 0⟩]
    | .server => []
  unacked := fun _ => none
  acked := []
  received := []
  next := 0
  queued := match role with
    | .client => [.clientHello (handshake.clientHello suite config)]
    | .server => []
  sends := []
  send := { connectionMaxOffset := config.initialConnectionWindow }
  receive := .new config.initialConnectionWindow

/-- What `HandshakeState::new` makes. -/
def HandshakeState.Unused (h : HandshakeState) (id : Nat) (config : ConnectionConfig) : Prop :=
  ∃ keyPair nonce, h =
    { connectionId := id
      keyPair := keyPair
      localNonce := nonce
      peerMaxStreams := config.maxStreams
      peerInitialStreamWindow := config.initialStreamWindow }

theorem HandshakeState.new_unused {id : Nat} {config : ConnectionConfig} {entropy : Entropy}
    {h : HandshakeState} (hnew : HandshakeState.new id config entropy = .ok h) :
    h.Unused id config := by
  unfold HandshakeState.new at hnew
  split at hnew
  · cases hnew
  · split at hnew
    · cases hnew
    · cases hnew
      exact ⟨_, _, rfl⟩

/-- The calls of the constructor of a server leave its view alone. -/
theorem startServer_ends (suite : Suite) :
    Ends (start suite false) c (fun _ c' => c'.view = c.view) fun _ _ => True := by
  simp only [start]
  rw [ends_bind, ends_get, ends_bind]
  refine ends_onTimers (fun _ t => ?_) fun _ _ => trivial
  split
  · rw [ends_bind]
    refine ends_onTimers (fun _ t' => ?_) fun _ _ => trivial
    rfl
  · rfl

/-- Those of the constructor of a client queue the hello and flush. -/
theorem startClient_ends (suite : Suite) :
    Ends (start suite true) c
      (fun _ c' => Edits suite False .other
        (({ c.view with
          handshake :=
            { c.handshake with
              clientNonce := some c.handshake.localNonce
              frame := some (c.clientHello suite) } } : View).enqueue (c.clientHello suite))
        c'.view)
      fun _ _ => True := by
  have htail : ∀ t, Ends (do
      startClient suite
      flush) { c with timers := t }
      (fun _ c' => Edits suite False .other
        (({ c.view with
          handshake :=
            { c.handshake with
              clientNonce := some c.handshake.localNonce
              frame := some (c.clientHello suite) } } : View).enqueue (c.clientHello suite))
        c'.view)
      fun _ _ => True := by
    intro t
    simp only [startClient, ends_steps, ends_modifyHandshake]
    refine ends_onTimers (fun _ t => ?_) fun _ _ => trivial
    exact Ends.mono (@flush_does suite .other _) (fun _ _ h => h) fun _ _ _ => trivial
  simp only [start]
  rw [ends_bind, ends_get, ends_bind]
  refine ends_onTimers (fun _ t => ?_) fun _ _ => trivial
  split
  · rw [ends_bind]
    refine ends_onTimers (fun _ t' => ?_) fun _ _ => trivial
    exact htail t'
  · exact htail t

/-- What `Connection::new` builds before it starts the timers and the handshake. -/
def Connection.unstarted (role : ConnectionRole) (id : Nat) (config : ConnectionConfig)
    (handshake : HandshakeState) (timers : TimerState) : Connection where
  role := role
  id := id
  config := config
  state := if role == .client then .handshaking else .idle
  now := 0
  streams := { nextStreamNumber := role.localStreamParity }
  transport := .new config
  handshake := handshake
  packetCrypto := none
  timers := timers
  output := []
  connectionSend := { connectionMaxOffset := config.initialConnectionWindow }
  connectionReceive := .new config.initialConnectionWindow
  closeError := none

theorem new_starts {suite : Suite} {role : ConnectionRole} {id : Nat} {config : ConnectionConfig}
    {entropy : Entropy}
    (h : Connection.new suite role id config entropy (role == .client) = .ok c) :
    config.validate = .ok () ∧ ∃ (handshake : HandshakeState) (timers : TimerState),
      handshake.Unused id config ∧ (∃ order, TimerState.new config order = .ok timers) ∧
      start suite (role == .client) (.unstarted role id config handshake timers) = .ok () c := by
  unfold Connection.new at h
  cases hv : config.validate with
  | error e =>
      rw [hv] at h
      cases h
  | ok u =>
      cases hh : HandshakeState.new id config entropy with
      | error e =>
          rw [hv, hh] at h
          cases h
      | ok handshake =>
          cases ht : TimerState.new config entropy.order with
          | error e =>
              rw [hv, hh, ht] at h
              cases h
          | ok timers =>
              rw [hv, hh, ht] at h
              simp only [bind, Except.bind, pure, Except.pure] at h
              refine ⟨rfl, handshake, timers, HandshakeState.new_unused hh, ⟨_, ht⟩, ?_⟩
              split at h
              · next c' hrun =>
                  cases h
                  exact hrun
              · cases h

theorem fresh_starts {suite : Suite} {role : ConnectionRole} {config : ConnectionConfig}
    (h : Fresh suite role config c) :
    config.validate = .ok () ∧ ∃ (id : Nat) (handshake : HandshakeState) (timers : TimerState),
      handshake.Unused id config ∧ (∃ order, TimerState.new config order = .ok timers) ∧
      start suite (role == .client) (.unstarted role id config handshake timers) = .ok () c := by
  obtain ⟨id, entropy, h⟩ := h
  cases role with
  | client => exact ⟨(new_starts h).1, id, (new_starts h).2⟩
  | server => exact ⟨(new_starts h).1, id, (new_starts h).2⟩

/-- The limits that the checks of the configuration leave. -/
theorem validate_limits {config : ConnectionConfig} (hvalid : config.validate = .ok ()) :
    config.maxDatagramSize ≤ 0xffff ∧
      config.minCongestionWindow ≤ config.initialCongestionWindow ∧
      config.initialCongestionWindow ≤ config.maxCongestionWindow := by
  unfold ConnectionConfig.validate at hvalid
  split_ifs at hvalid with h₁ h₂ h₃ h₄ h₅ h₆
  simp only [Bool.or_eq_true, decide_eq_true_eq, not_or] at h₆
  omega

theorem fresh_edits {suite : Suite} {role : ConnectionRole} {config : ConnectionConfig}
    (h : Fresh suite role config c) :
    config.validate = .ok () ∧ ∃ id, ∃ handshake : HandshakeState, handshake.Unused id config ∧
      Edits suite False .other (View.initial suite role id config handshake) c.view := by
  obtain ⟨hvalid, id, handshake, timers, hunused, _, hrun⟩ := fresh_starts h
  refine ⟨hvalid, id, handshake, hunused, ?_⟩
  cases role with
  | client =>
      have hedits := (startClient_ends suite).ok hrun
      convert hedits using 1
      unfold View.initial Connection.view
      simp only [Connection.unstarted, Std.TreeMap.getElem?_emptyc]
      rfl
  | server =>
      rw [(startServer_ends suite).ok hrun]
      unfold View.initial Connection.view
      simp only [Connection.unstarted, Std.TreeMap.getElem?_emptyc]
      exact .refl

end DartUdp.Core
