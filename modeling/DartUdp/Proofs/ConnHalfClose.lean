import DartUdp.Lib.Lockstep
import DartUdp.Proofs.ConnReceipts
import DartUdp.Proofs.ConnReopen

/-!
# Half-closed streams

The FIN of the peer ends one direction of a stream. The other one should not
notice: what a write does depends on the sending side alone. But the two share
the state of the stream, and it becomes finished as soon as the FIN is in and
nothing is left to read, be it at once or when the last byte is read. From then
on every write is refused.

The module is for `half_close_iff`. `SendsAlike` says that a call looks at nothing
but the sending side, and is shown function by function, so `processStreamData_fin`
leaves a write alone; `readRecord_run` is the read that finishes the stream.
-/

namespace DartUdp.Core

open DartUdp.Lib DartUdp.Udp

variable {suite : Suite} {c c' : Connection} {id : Nat} {s : StreamRecord}

/-! ## What a write looks at -/

/-- The connection with other streams, another receive limit and other output. -/
def Connection.swap (c : Connection) (streams : Std.TreeMap Nat StreamRecord)
    (receive : ReceiveFlowControl) (output : List CoreOutput) : Connection :=
  { c with
    streams := { c.streams with streams := streams }
    connectionReceive := receive
    output := output }

/-- The streams send alike. -/
def StreamManager.Alike (m m' : StreamManager) : Prop :=
  ∀ id : Nat, (m'.streams[id]?).map (·.send) = (m.streams[id]?).map (·.send)

/-- The connections differ only in the receiving sides of their streams, in the
states of these, and in what the application has been told. -/
def SendsAlike (c c' : Connection) : Prop :=
  ∃ streams receive output, c' = c.swap streams receive output ∧ c.streams.Alike c'.streams

/-- The sending sides of the streams, by id. -/
def StreamManager.sends (m : StreamManager) : List (Nat × SendStream) :=
  m.streams.toList.map fun entry => (entry.1, entry.2.send)

namespace StreamManager.Alike

variable {m m' : StreamManager}

/-- Streams that send alike are met in the same order. -/
theorem sends_eq (h : m.Alike m') : m'.sends = m.sends := by
  have hmap : ∀ t : Std.TreeMap Nat StreamRecord,
      (t.map fun _ s => s.send).toList = t.toList.map fun entry => (entry.1, entry.2.send) :=
    fun t => Std.TreeMap.toList_map
  unfold StreamManager.sends
  rw [← hmap, ← hmap]
  refine toList_congr fun k => ?_
  rw [Std.TreeMap.getElem?_map, Std.TreeMap.getElem?_map]
  exact h k

theorem put (h : m.Alike m') (id : Nat) {s s' : StreamRecord} (hs : s'.send = s.send) :
    (m.put id s).Alike (m'.put id s') := by
  intro i
  have hput := congrFun (streams_put m id s) i
  have hput' := congrFun (streams_put m' id s') i
  refine (congrArg _ hput').trans (.trans ?_ (congrArg _ hput).symm)
  by_cases hi : i = id
  · rw [hi, Function.update_self, Function.update_self, Option.map_some, Option.map_some, hs]
  · rw [Function.update_of_ne hi, Function.update_of_ne hi]
    exact h i

/-- A stream that one has, the other has as well. -/
theorem known (h : m.Alike m') {s : StreamRecord} (hs : m.streams[id]? = some s) :
    ∃ s', m'.streams[id]? = some s' ∧ s'.send = s.send := by
  have hsend := h id
  rw [hs, Option.map_some, Option.map_eq_some_iff] at hsend
  exact hsend

theorem unknown (h : m.Alike m') (hs : m.streams[id]? = none) : m'.streams[id]? = none := by
  have hsend := h id
  rwa [hs, Option.map_none, Option.map_eq_none_iff] at hsend

/-- The same front chunk is the next to be sent. -/
theorem takeSendable (h : m.Alike m') :
    m.takeSendable = none ∧ m'.takeSendable = none ∨
      ∃ queued id send, ∃ s s' : StreamRecord,
        m.takeSendable = some (queued, m.put id { s with send := send }) ∧
        m'.takeSendable = some (queued, m'.put id { s' with send := send }) := by
  let sendable : SendStream → Bool := fun send => (StreamRecord.sendable
    { id := 0, bidirectional := true, state := .opened, send := send,
      recv := { streamId := 0, maxOffset := 0 }, recvFlow := .new 0 })
  have hfind : ∀ n : StreamManager, (n.streams.toList.find? (·.2.sendable)).map
      (fun entry => (entry.1, entry.2.send)) = n.sends.find? fun entry => sendable entry.2 := by
    intro n
    unfold StreamManager.sends
    rw [List.find?_map]
    rfl
  have hsame := (hfind m').trans ((congrArg _ h.sends_eq).trans (hfind m).symm)
  unfold StreamManager.takeSendable
  cases hm : m.streams.toList.find? (·.2.sendable) with
  | none =>
      rw [hm, Option.map_none, Option.map_eq_none_iff] at hsame
      rw [hsame]
      exact .inl ⟨rfl, rfl⟩
  | some entry =>
      rw [hm, Option.map_some, Option.map_eq_some_iff] at hsame
      obtain ⟨entry', hm', heq⟩ := hsame
      rw [hm']
      obtain ⟨id, s⟩ := entry
      obtain ⟨id', s'⟩ := entry'
      obtain ⟨rfl, hsend⟩ := Prod.mk.inj heq
      dsimp only at hsend
      cases hpop : s.send.popSendable with
      | none => exact .inl ⟨by simp [hpop], by simp [hsend, hpop]⟩
      | some popped =>
          obtain ⟨item, send⟩ := popped
          exact .inr ⟨⟨.streamData ⟨id', item.offset, item.fin, item.data⟩, item.retransmitCount⟩,
            id', send, s, s', by simp [hpop], by simp [hsend, hpop]⟩

end StreamManager.Alike

/-! ## The flush looks at nothing else -/

namespace SendsAlike

theorem refl (c : Connection) : SendsAlike c c := ⟨_, _, _, rfl, fun _ => rfl⟩

/-- A change of what both have in common. -/
theorem change (h : SendsAlike c c') (f : Connection → Connection)
    (hf : ∀ streams receive output,
      f (c.swap streams receive output) = (f c).swap streams receive output)
    (hstreams : (f c).streams = c.streams) : SendsAlike (f c) (f c') := by
  obtain ⟨streams, receive, output, rfl, hsends⟩ := h
  refine ⟨streams, receive, output, hf _ _ _, ?_⟩
  rw [hf, hstreams]
  exact hsends

theorem modifyTransport (h : SendsAlike c c') (f : TransportState → TransportState) :
    Lockstep SendsAlike (modifyTransport f c) (modifyTransport f c') :=
  .modify (h.change (fun c => { c with transport := f c.transport }) (fun _ _ _ => rfl) rfl)

theorem onTimers {α : Type} (h : SendsAlike c c') (m : TimerM α) :
    Lockstep SendsAlike (onTimers m c) (onTimers m c') := by
  obtain ⟨streams, receive, output, rfl, hsends⟩ := h
  exact .zoom m rfl fun t => ⟨streams, receive, output, rfl, hsends⟩

theorem put (h : SendsAlike c c') (id : Nat) {s s' : StreamRecord} (hs : s'.send = s.send) :
    SendsAlike { c with streams := c.streams.put id s }
      { c' with streams := c'.streams.put id s' } := by
  obtain ⟨streams, receive, output, rfl, hsends⟩ := h
  exact ⟨_, receive, output, rfl, hsends.put id hs⟩

theorem emit (h : SendsAlike c c') (out : CoreOutput) :
    SendsAlike (c.emit out) (c'.emit out) := by
  obtain ⟨streams, receive, output, rfl, hsends⟩ := h
  exact ⟨streams, receive, _, rfl, hsends⟩

theorem takeDataCandidate (h : SendsAlike c c') :
    Lockstep SendsAlike (takeDataCandidate c) (takeDataCandidate c') := by
  have hpending : c'.transport.pendingFrames = c.transport.pendingFrames := by
    obtain ⟨streams, receive, output, rfl, _⟩ := h
    rfl
  refine .get_bind ?_
  rw [hpending]
  cases c.transport.pendingFrames with
  | cons queued rest =>
      exact (h.modifyTransport _).bind fun _ _ _ h' => .pure _ h'
  | nil =>
      have hsends : c.streams.Alike c'.streams := by
        obtain ⟨streams, receive, output, rfl, hsends⟩ := h
        exact hsends
      dsimp only
      rcases hsends.takeSendable with ⟨hnone, hnone'⟩ | ⟨queued, id, send, s, s', hsome, hsome'⟩
      · rw [hnone, hnone']
        exact .pure _ h
      · rw [hsome, hsome']
        exact .bind (.modify (h.put id rfl)) fun _ _ _ h' => .pure _ h'

theorem takeCandidate (h : SendsAlike c c') :
    Lockstep SendsAlike (takeCandidate c) (takeCandidate c') := by
  obtain ⟨streams, receive, output, rfl, hsends⟩ := h
  have h : SendsAlike c (c.swap streams receive output) := ⟨streams, receive, output, rfl, hsends⟩
  refine .get_bind (.ite (fun _ => ?_) fun _ => ?_)
  · exact .bind (.ofExcept _ _ h) fun _ _ _ h' => .pure _ h'
  · exact h.takeDataCandidate.bind fun _ _ _ h' => .pure _ h'

/-- A program on the record of one stream that only looks at its sending side. -/
theorem onRecord {α : Type} (h : SendsAlike c c') (id : Nat) {f : StreamRecord → StreamsM α}
    (hf : ∀ s s', c.streams.streams[id]? = some s → c'.streams.streams[id]? = some s' →
      s'.send = s.send →
      (∃ e, f s c.streams = .error e c.streams ∧ f s' c'.streams = .error e c'.streams) ∨
      ∃ a send, f s c.streams = .ok a (c.streams.put id { s with send := send }) ∧
        f s' c'.streams = .ok a (c'.streams.put id { s' with send := send })) :
    Lockstep SendsAlike (onStreams (record id >>= f) c) (onStreams (record id >>= f) c') := by
  have hsends : c.streams.Alike c'.streams := by
    obtain ⟨streams, receive, output, rfl, hsends⟩ := h
    exact hsends
  unfold onStreams Lib.zoom
  cases hs : c.streams.streams[id]? with
  | none =>
      have hrun : ∀ m : StreamManager, m.streams[id]? = none →
          (record id >>= f) m = .error (.unknownStream id) m := fun m hm =>
        bind_error (by simp [record, hm, bind_ok (get_run m)])
      rw [hrun _ hs, hrun _ (hsends.unknown hs)]
      exact .error _ h
  | some s =>
      obtain ⟨s', hs', hsend⟩ := hsends.known hs
      have hrun : ∀ (m : StreamManager) (s : StreamRecord), m.streams[id]? = some s →
          (record id >>= f) m = f s m := fun m s hm =>
        bind_ok (by simp [record, hm, bind_ok (get_run m)])
      rw [hrun _ _ hs, hrun _ _ hs']
      rcases hf s s' hs hs' hsend with ⟨e, he, he'⟩ | ⟨a, send, ha, ha'⟩
      · rw [he, he']
        exact .error e h
      · rw [ha, ha']
        exact .ok a (h.put id rfl)

theorem putBack (h : SendsAlike c c') (frame : Frame) (n : Nat) :
    Lockstep SendsAlike (putBack frame n c) (putBack frame n c') := by
  unfold Core.putBack
  split
  · next d =>
      refine h.onRecord d.streamId fun s s' _ _ hsend => .inr ⟨_, s.send.requeue d n, rfl, ?_⟩
      rw [← hsend]
      rfl
  · exact h.modifyTransport _

theorem requeueCandidate (h : SendsAlike c c') (candidate : Candidate) :
    Lockstep SendsAlike (requeueCandidate candidate c) (requeueCandidate candidate c') := by
  cases candidate with
  | ack a => exact .pure _ h
  | frame queued => exact h.putBack _ _

theorem flowBlocks (h : SendsAlike c c') (candidate : Candidate) :
    Lockstep SendsAlike (flowBlocks candidate c) (flowBlocks candidate c') := by
  have hflow : c'.connectionSend = c.connectionSend := by
    obtain ⟨streams, receive, output, rfl, _⟩ := h
    rfl
  unfold Core.flowBlocks
  split
  · next d count =>
      refine .get_bind ?_
      rw [hflow]
      refine .ite (fun _ => .pure _ h) fun _ => .ite (fun _ => ?_) fun _ => .pure _ h
      have hcounted := h.change (fun c => { c with
        connectionSend := c.connectionSend.accountNewData d.data.length }) (fun _ _ _ => rfl) rfl
      exact .bind (.modify hcounted) fun _ _ _ h' => .pure _ h'
  · exact .pure _ h

theorem recordSent (h : SendsAlike c c') (n len : Nat) (queued : QueuedFrame) :
    Lockstep SendsAlike (recordSent n len queued c) (recordSent n len queued c') := by
  unfold Core.recordSent
  cases queued.frame with
  | clientHello => exact .pure _ h
  | serverHello => exact .pure _ h
  | handshakeAck => exact .pure _ h
  | _ =>
      refine (h.modifyTransport _).bind fun _ t t' ht => .get_bind ?_
      obtain ⟨streams, receive, output, rfl, hsends⟩ := ht
      have ht : SendsAlike t (t.swap streams receive output) :=
        ⟨streams, receive, output, rfl, hsends⟩
      exact (ht.onTimers _).bind fun _ u u' hu => hu.modifyTransport _

theorem settle (h : SendsAlike c c') (n len : Nat) (candidate : Candidate) :
    Lockstep SendsAlike (settle n len candidate c) (settle n len candidate c') := by
  cases candidate with
  | ack a =>
      exact .modify (h.change (fun c => { c with
        transport := { c.transport with ackPending := false, ackReady := false }
        timers := c.timers.cancelAck }) (fun _ _ _ => rfl) rfl)
  | frame queued =>
      exact .ite (fun _ => (h.recordSent n len queued).bind fun _ _ _ h' => h'.modifyTransport _)
        fun _ => .pure _ h

theorem flushOnce (h : SendsAlike c c') :
    Lockstep SendsAlike (flushOnce c) (flushOnce c') := by
  refine h.takeCandidate.bind fun r t t' ht => ?_
  cases r with
  | none => exact .pure _ ht
  | some candidate =>
      obtain ⟨streams, receive, output, rfl, hsends⟩ := ht
      have ht : SendsAlike t (t.swap streams receive output) :=
        ⟨streams, receive, output, rfl, hsends⟩
      refine .get_bind (.bind (.ofExcept _ _ ht) fun len u u' hu => .ite (fun _ => ?_) fun _ => ?_)
      · exact (hu.requeueCandidate candidate).bind fun _ _ _ h' => .pure _ h'
      · -- The packet number is the same in both.
        dsimp only [Connection.swap]
        cases checkedAdd t.transport.nextPacketNumber 1 with
        | none => exact .throw _ hu
        | some next =>
            refine (hu.modifyTransport _).bind fun _ v v' hv =>
              (hv.flowBlocks candidate).bind fun blocked w w' hw => .ite (fun _ => ?_) fun _ => ?_
            · exact (hw.requeueCandidate candidate).bind fun _ _ _ h' =>
                (h'.modifyTransport _).bind fun _ _ _ h'' => .pure _ h''
            · exact .bind (.modify (hw.emit _)) fun _ x x' hx =>
                (hx.settle _ _ candidate).bind fun _ _ _ h' => .pure _ h'

theorem flushLoop (h : SendsAlike c c') (n : Nat) :
    Lockstep SendsAlike (flushLoop n c) (flushLoop n c') := by
  induction n generalizing c c' with
  | zero => exact .pure _ h
  | succ n ih => exact h.flushOnce.bind fun _ _ _ h' => .ite (fun _ => ih h') fun _ => .pure _ h'

theorem flush (h : SendsAlike c c') : Lockstep SendsAlike (flush c) (flush c') := by
  have hfuel : c'.flushFuel = c.flushFuel := by
    have hqueues : ∀ m : StreamManager, (m.streams.toList.map (·.2.send.queue.length)) =
        m.sends.map (·.2.queue.length) := fun m => by
      unfold StreamManager.sends
      rw [List.map_map]
      rfl
    obtain ⟨streams, receive, output, rfl, hsends⟩ := h
    unfold Connection.flushFuel
    rw [hqueues, hqueues, hsends.sends_eq]
    rfl
  refine .get_bind ?_
  rw [hfuel]
  exact h.flushLoop _

/-- A write to a stream that is open in both ends alike. -/
theorem writeStream (h : SendsAlike c c') (id : Nat) (data : Bytes) (fin : Bool)
    (hopen : ∀ s s', c.streams.streams[id]? = some s → c'.streams.streams[id]? = some s' →
      s'.state = s.state) :
    Lockstep SendsAlike (writeStream id data fin c) (writeStream id data fin c') := by
  have hsame : c'.state = c.state ∧ c'.config = c.config := by
    obtain ⟨streams, receive, output, rfl, _⟩ := h
    exact ⟨rfl, rfl⟩
  by_cases hst : c.state = .established
  · have hrun : ∀ d : Connection, d.state = .established →
        Core.ensureEstablished "write stream" d = .ok () d := by
      intro d hd
      simp [Core.ensureEstablished, hd, bind_ok (get_run d)]
    unfold Core.writeStream
    rw [bind_ok (hrun c hst), bind_ok (hrun c' (hsame.1.trans hst))]
    refine .get_bind ?_
    have hchunk : c'.maxStreamDataChunk = c.maxStreamDataChunk := by
      unfold Connection.maxStreamDataChunk
      rw [hsame.2]
    rw [hchunk, hsame.2]
    refine .bind (h.onRecord id fun s s' hs hs' hsend => ?_) fun n _ _ h' =>
      h'.flush.bind fun _ _ _ h'' => .pure _ h''
    have hstates := hopen s s' hs hs'
    by_cases hstate : s.state = .opened
    · cases hw : s.send.write data fin c.config.maxSendBuffer c.maxStreamDataChunk with
      | error e =>
          refine .inl ⟨e, ?_, ?_⟩
          · rw [if_neg (not_not.2 hstate)]
            rfl
          · rw [if_neg (not_not.2 (hstates.trans hstate)), hsend, hw]
            rfl
      | ok written =>
          refine .inr ⟨written.1, written.2, ?_, ?_⟩
          · rw [if_neg (not_not.2 hstate)]
            rfl
          · rw [if_neg (not_not.2 (hstates.trans hstate)), hsend, hw]
            rfl
    · refine .inl ⟨.invalidState "write closed stream", ?_, ?_⟩
      · rw [if_pos hstate]
        rfl
      · rw [if_pos (hstates ▸ hstate)]
        rfl
  · have hrun : ∀ d : Connection, d.state ≠ .established →
        Core.ensureEstablished "write stream" d = .error (.invalidState "write stream") d := by
      intro d hd
      simp [Core.ensureEstablished, hd, bind_ok (get_run d)]
    unfold Core.writeStream
    rw [bind_error (hrun c hst), bind_error (hrun c' (hsame.1 ▸ hst))]
    exact .error _ h

/-- Another record for a stream, with the same sending side. -/
theorem of_record (hs : c.streams.streams[id]? = some s) {s' : StreamRecord}
    (hsend : s'.send = s.send) : SendsAlike c { c with streams := c.streams.put id s' } := by
  refine ⟨(c.streams.put id s').streams, c.connectionReceive, c.output, rfl, fun i => ?_⟩
  have hput := congrFun (streams_put c.streams id s') i
  refine (congrArg _ hput).trans ?_
  by_cases hi : i = id
  · rw [hi, Function.update_self, hs, Option.map_some, Option.map_some, hsend]
  · rw [Function.update_of_ne hi]

theorem of_received (c : Connection) (receive : ReceiveFlowControl) :
    SendsAlike c { c with connectionReceive := receive } :=
  ⟨c.streams.streams, receive, c.output, rfl, fun _ => rfl⟩

theorem of_emit (c : Connection) (out : CoreOutput) : SendsAlike c (c.emit out) :=
  ⟨c.streams.streams, c.connectionReceive, _, rfl, fun _ => rfl⟩

theorem trans {c'' : Connection} (h : SendsAlike c c') (h' : SendsAlike c' c'') :
    SendsAlike c c'' := by
  obtain ⟨streams, receive, output, rfl, hsends⟩ := h
  obtain ⟨streams', receive', output', rfl, hsends'⟩ := h'
  exact ⟨streams', receive', output', rfl, fun i => (hsends' i).trans (hsends i)⟩

end SendsAlike

/-! ## The FIN -/

/-- Nothing of the stream is unread or missing up to the offset. -/
def StreamRecord.Drained (s : StreamRecord) (stop : Nat) : Prop :=
  s.recv.ready = [] ∧ s.recv.nextOffset = stop

instance (s : StreamRecord) (stop : Nat) : Decidable (s.Drained stop) :=
  inferInstanceAs (Decidable (_ ∧ _))

/-- Beyond the contiguous part no segment starts at the next offset. -/
theorem holds_beyond {r : ReceiveStream} (h : r.Sound) {i : Nat} {b : UInt8}
    (hb : Holds r.segments i b) : r.nextOffset < i := by
  obtain ⟨start, data, hstart, hle, _⟩ := hb
  have := h.segments.above start data hstart
  omega

/-- A FIN that is accepted finds its stream at its end exactly if nothing was
missing before and nothing is left to read. -/
theorem finished_iff {r r' : ReceiveStream} {offset n : Nat} {data : Bytes} (h : r.Sound)
    (hlen : r.ready.length ≤ r.nextOffset) (hrun : insertSegment offset data true r = .ok n r') :
    (r'.isFinished && !r'.readable) = true ↔
      r.ready = [] ∧ r.nextOffset = offset + data.length := by
  obtain ⟨hinserts, hfinal⟩ := (insertSegment_ends h).ok hrun
  have hend : r'.finalOffset = some (offset + data.length) := (checkFinal_ok hfinal).1
  have hfinished : (r'.isFinished && !r'.readable) = true ↔
      r'.ready = [] ∧ r'.nextOffset = offset + data.length := by
    simp only [ReceiveStream.isFinished, hend, Option.any_some, ReceiveStream.readable,
      Bool.not_not, Bool.and_eq_true, beq_iff_eq, List.isEmpty_iff]
    tauto
  have hready := hinserts.ready
  have htaken : (List.replicate (r.nextOffset - r.ready.length) (0 : UInt8) ++ r.ready).length =
      r.nextOffset := by
    rw [List.length_append, List.length_replicate]
    omega
  rw [hfinished]
  constructor
  · rintro ⟨hnil, hstop⟩
    rw [hnil, List.length_nil, Nat.add_zero] at hready
    cases hbytes : r.ready with
    | nil =>
        rw [hbytes, List.length_nil] at hready
        exact ⟨rfl, hready.symm.trans hstop⟩
    | cons b rest =>
        -- The first unread byte would have gone.
        have hhas : r.Has (List.replicate (r.nextOffset - r.ready.length) 0)
            (r.nextOffset - r.ready.length) b := by
          left
          rw [List.getElem?_append_right (by simp), hbytes]
          simp
        rcases (hinserts.bytes _ htaken _ _).2 (.inl hhas) with hb | hb
        · rw [hnil, List.append_nil] at hb
          simp at hb
        · have := holds_beyond hinserts.sound hb
          omega
  · rintro ⟨hnil, hstop⟩
    rw [hnil, List.length_nil, Nat.sub_zero, List.append_nil] at htaken
    rw [hnil, List.length_nil, Nat.add_zero] at hready
    cases hbytes : r'.ready with
    | nil =>
        rw [hbytes, List.length_nil, Nat.add_zero] at hready
        exact ⟨rfl, hready.trans hstop⟩
    | cons b rest =>
        -- The next byte would have come from nowhere.
        have hhas : r'.Has (List.replicate r.nextOffset 0) r.nextOffset b := by
          left
          rw [List.getElem?_append_right (by simp), hbytes]
          simp
        have hnone : (List.replicate r.nextOffset (0 : UInt8) ++ r.ready).length =
            r.nextOffset := by
          rw [hnil, List.append_nil, htaken]
        rcases (hinserts.bytes _ hnone _ _).1 hhas with (hb | hb) | ⟨_, _, hb⟩
        · rw [hnil, List.append_nil] at hb
          simp at hb
        · have := holds_beyond h hb
          omega
        · rw [hstop, Nat.add_sub_cancel_left, List.getElem?_eq_none le_rfl] at hb
          cases hb

/-- What follows the insertion finishes the stream if it is at its end and nothing
of it can be read. -/
theorem reportData_alike (d : StreamData) (status : StreamDataStatus) (room : Nat)
    (hs : c.streams.streams[d.streamId]? = some s) :
    Ends (do
      if status.buffered > room then throw .receiveBufferFull
      if status.readable then modify (·.emit (.streamReadable d.streamId))
      if status.finished && !status.readable then
        modify fun c => { c with streams := c.streams.finish d.streamId }
        modify (·.emit (.streamFinished d.streamId)) : ConnM Unit) c
      (fun _ c' => SendsAlike c c' ∧ ∃ s', c'.streams.streams[d.streamId]? = some s' ∧
        s'.state = if (status.finished && !status.readable) = true then .finished else s.state)
      fun _ _ => True := by
  simp only [ends_steps]
  refine ⟨fun _ => trivial, fun _ => ⟨fun hread => ⟨fun h => ?_, fun h => ?_⟩,
    fun _ => ⟨fun h => ?_, fun h => ?_⟩⟩⟩
  · simp [hread] at h
  · rw [if_neg h]
    exact ⟨.of_emit c _, s, hs, rfl⟩
  · rw [if_pos h]
    have hfinish : c.streams.finish d.streamId =
        c.streams.put d.streamId { s with state := .finished } := by
      rw [StreamManager.finish, hs]
    rw [hfinish]
    have hrecord : SendsAlike c { c with
        streams := c.streams.put d.streamId { s with state := .finished } } := .of_record hs rfl
    exact ⟨hrecord.trans (.of_emit _ _), { s with state := .finished },
      StreamManager.getElem?_put_self _ _ _, rfl⟩
  · rw [if_neg h]
    exact ⟨.refl c, s, hs, rfl⟩

/-- What a FIN leaves: nothing a write looks at but the state of the stream. -/
theorem processStreamData_fin (h : c.view.Metered) {d : StreamData}
    (hs : c.streams.streams[d.streamId]? = some s) (hopen : s.state = .opened)
    (hfin : d.fin = true) :
    Ends (processStreamData .data d) c
      (fun _ c' => SendsAlike c c' ∧ ∃ s', c'.streams.streams[d.streamId]? = some s' ∧
        s'.state = if s.Drained (d.offset + d.data.length) then .finished else .opened)
      fun _ _ => True := by
  obtain ⟨hsound, hconsumed, _⟩ := h.streams d.streamId s hs
  have hlen : s.recv.ready.length ≤ s.recv.nextOffset := by omega
  simp only [processStreamData, ends_bind, ends_ensureData, ends_get, ends_onStreams]
  refine ⟨fun _ => ?_, fun _ => trivial⟩
  refine (newDataBytes_ends d _).mono (fun n m hm => ?_) fun _ _ _ => trivial
  obtain ⟨rfl, _⟩ := hm
  split
  · trivial
  · simp only [ends_bind, ends_ofExcept, ends_onStreams]
    refine ⟨fun _ _ => (insertData_ends hs).mono (fun status m' hm' => ?_) fun _ _ _ => trivial,
      fun _ _ => trivial⟩
    obtain ⟨_, n', recv, hrun, rfl, rfl⟩ := hm'.resolve_left fun hnot => hnot.1 hopen
    rw [hfin] at hrun
    have hiff := finished_iff hsound hlen hrun
    refine ⟨fun flow _ => ?_, fun _ _ => trivial⟩
    have hput := StreamManager.getElem?_put_self c.streams d.streamId { s with recv := recv }
    have hrecord : SendsAlike c { c with
        streams := c.streams.put d.streamId { s with recv := recv } } := .of_record hs rfl
    have halike := hrecord.trans (.of_received _ flow)
    rw [ends_modify]
    refine (reportData_alike d _ _ hput).mono (fun _ c' hc' => ?_) fun _ _ _ => trivial
    obtain ⟨halike', s', hs', hstate⟩ := hc'
    refine ⟨halike.trans halike', s', hs', hstate.trans ?_⟩
    simp only [hiff, hopen]
    rfl

/-! ## Reading to the end -/

/-- A read answers the end of the stream if it takes all that there is. -/
theorem read_eof_iff (s : StreamRecord) (maxLen : Nat) :
    (s.read maxLen).1.eof = true ↔
      s.recv.finalOffset = some s.recv.nextOffset ∧ s.recv.ready.length ≤ maxLen := by
  have heof : (s.read maxLen).1.eof =
      s.recv.finalOffset.any fun finalOffset =>
        s.recv.nextOffset == finalOffset && (s.recv.ready.drop maxLen).isEmpty := rfl
  rw [heof]
  cases s.recv.finalOffset with
  | none => simp
  | some finalOffset =>
      simp only [Option.any_some, Bool.and_eq_true, beq_iff_eq, List.isEmpty_iff,
        List.drop_eq_nil_iff, Option.some.injEq]
      exact and_congr_left' eq_comm

theorem readRecord_run (hs : c.streams.streams[id]? = some s) (hopen : s.state = .opened)
    (maxLen : Nat) : onStreams (readRecord id maxLen) c =
      .ok (s.read maxLen).1 { c with streams := c.streams.put id (s.read maxLen).2 } := by
  have hrecord : record id c.streams = .ok s c.streams := by
    simp [record, hs, bind_ok (get_run c.streams)]
  unfold onStreams Lib.zoom readRecord
  rw [bind_ok hrecord, hopen]
  rfl

/-- A stream that is closed stays so while the connection acts on its own. -/
theorem Edit.stays_closed {L : Prop} {v v' : View} (e : Edit suite L .other v v')
    (h : ∀ s, v.streams id = some s → s.state ≠ .opened) :
    ∀ s, v'.streams id = some s → s.state ≠ .opened := by
  have houtward : ∀ {v₀ v₁ v₂ : View}, v₀.streams = v.streams → v₀.Outward v₁ →
      v₂.streams = v₁.streams → ∀ s, v₂.streams id = some s → s.state ≠ .opened := by
    intro v₀ v₁ v₂ h₀ ho h₂ s hs
    rw [h₂] at hs
    obtain ⟨s₀, hs₀, hstate, _⟩ := ho.known hs
    rw [hstate]
    exact h s₀ (h₀ ▸ hs₀)
  cases e with
  | opened i hk => cases hk
  | accept p o hk => cases hk
  | write i data fin s mb mc n send hk => cases hk
  | read i maxLen s hk => cases hk
  | insert p d s newBytes n recv hk => cases hk
  | reject p d s e recv hl hk => cases hk
  | limit p u s hk => cases hk
  | reset p r s hk => cases hk
  | finish i s hs hfin =>
      intro s' hs'
      rcases View.put_cases hs' with ⟨_, rfl⟩ | ⟨_, hs'⟩
      · exact fun h => by cases h
      · exact h s' hs'
  | lose n count sp =>
      exact @houtward (v.forget n) _ _ rfl (View.outward_putBackAll ..) rfl
  | drop n count m sp =>
      exact @houtward (v.forget n) _ _ rfl (View.outward_putBackAll ..) rfl
  | emit q v₁ sp ht =>
      obtain ⟨sent, heq⟩ := v₁.account_eq q
      rw [heq]
      exact houtward rfl ht.outward rfl
  | pass q v₁ ht =>
      obtain ⟨sent, heq⟩ := v₁.account_eq q
      rw [heq]
      exact houtward rfl ht.outward rfl
  | lost q v₁ next hl ht => exact houtward rfl ht.outward rfl
  | back q v₁ ht => exact houtward rfl (ht.outward.trans (View.outward_putBack ..)) rfl
  | _ => exact h

theorem Edits.stays_closed {L : Prop} {v v' : View} (h : Edits suite L .other v v')
    (hclosed : ∀ s, v.streams id = some s → s.state ≠ .opened) :
    ∀ s, v'.streams id = some s → s.state ≠ .opened := by
  induction h with
  | refl => exact hclosed
  | tail _ e ih => exact e.stays_closed ih

/-- A stream that is not open takes no write. -/
theorem writeStream_closed (hclosed : ∀ s, c.streams.streams[id]? = some s → s.state ≠ .opened)
    (data : Bytes) (fin : Bool) : answer (writeStream id data fin) c = none := by
  have hends : Ends (writeStream id data fin) c (fun _ _ => False) fun _ _ => True := by
    simp only [writeStream, writeRecord, ends_steps, ends_ensureEstablished, ends_onStreams,
      ends_record]
    exact ⟨fun _ => ⟨fun s hs => ⟨fun _ => trivial, fun h => absurd (not_not.1 h) (hclosed s hs)⟩,
      fun _ => trivial⟩, fun _ => trivial⟩
  cases hrun : writeStream id data fin c with
  | error e c' => rw [answer, hrun]
  | ok n c' => exact (hends.ok hrun).elim

/-- A write is taken by a stream that is open. -/
theorem writeStream_opened {data : Bytes} {fin : Bool}
    (h : (answer (writeStream id data fin) c).isSome) :
    ∃ s, c.streams.streams[id]? = some s ∧ s.state = .opened := by
  by_contra hnone
  rw [writeStream_closed (fun s hs hopen => hnone ⟨s, hs, hopen⟩)] at h
  cases h

/-- What leaves the sending sides alone takes a write or not by the state it
leaves the stream in. -/
theorem SendsAlike.takes_iff (h : SendsAlike c c') {s' : StreamRecord} {data : Bytes} {fin : Bool}
    (hs : c.streams.streams[id]? = some s) (hs' : c'.streams.streams[id]? = some s')
    (haccepted : (answer (Core.writeStream id data fin) c).isSome) :
    (answer (Core.writeStream id data fin) c').isSome ↔ s'.state = .opened := by
  obtain ⟨s₀, hs₀, hopen⟩ := writeStream_opened haccepted
  obtain rfl := Option.some.inj (hs.symm.trans hs₀)
  constructor
  · intro h'
    obtain ⟨s₁, hs₁, hopen'⟩ := writeStream_opened h'
    rwa [Option.some.inj (hs'.symm.trans hs₁)]
  · intro hopen'
    have hstep := h.writeStream id data fin fun s₁ s₁' hs₁ hs₁' => by
      rw [← Option.some.inj (hs.symm.trans hs₁), ← Option.some.inj (hs'.symm.trans hs₁'), hopen,
        hopen']
    rwa [← hstep.answer_eq]

/-- **Half-closed streams.** A write that is taken before the FIN of the peer is
processed is taken after it exactly if something of the stream is still missing
or unread by then; and it is taken after a read exactly if the read does not
come to the end. `read_stream` as a whole leaves such a stream refusing it. -/
theorem half_close_iff {role : ConnectionRole} {config : ConnectionConfig}
    (h : Reached suite role config c) (hs : c.streams.streams[id]? = some s) {data : Bytes}
    {fin : Bool} (haccepted : (answer (writeStream id data fin) c).isSome) :
    (∀ offset received c', processFrame suite .data
        (.streamData ⟨id, offset, true, received⟩) c = .ok () c' →
      ((answer (writeStream id data fin) c').isSome ↔
        ¬ s.Drained (offset + received.length))) ∧
    (∀ maxLen r c', onStreams (readRecord id maxLen) c = .ok r c' →
      ((answer (writeStream id data fin) c').isSome ↔
        ¬ (s.recv.finalOffset = some s.recv.nextOffset ∧ s.recv.ready.length ≤ maxLen))) ∧
    ∀ maxLen, s.recv.finalOffset = some s.recv.nextOffset → s.recv.ready.length ≤ maxLen →
      answer (writeStream id data fin) (after (readStream id maxLen) c) = none := by
  have hmetered : c.view.Metered := h.keeps (fun id handshake _ =>
    initial_metered suite role id config handshake) Edit.metered
  obtain ⟨s₀, hs₀, hopen⟩ := writeStream_opened haccepted
  obtain rfl := Option.some.inj (hs.symm.trans hs₀)
  refine ⟨fun offset received c' hrun => ?_, fun maxLen r c' hrun => ?_,
    fun maxLen hfinal hlen => ?_⟩
  · have hends := processStreamData_fin (d := ⟨id, offset, true, received⟩) hmetered hs hopen rfl
    obtain ⟨halike, s', hs', hstate⟩ := hends.ok hrun
    rw [halike.takes_iff hs hs' haccepted, hstate]
    split
    · next hdrained => exact iff_of_false (fun h => by cases h) (not_not.2 hdrained)
    · next hdrained => exact iff_of_true rfl hdrained
  · rw [readRecord_run hs hopen] at hrun
    cases hrun
    have halike : SendsAlike c { c with streams := c.streams.put id (s.read maxLen).2 } :=
      .of_record hs rfl
    have hput := StreamManager.getElem?_put_self c.streams id (s.read maxLen).2
    rw [halike.takes_iff hs hput haccepted, ← read_eof_iff]
    show (bif (s.read maxLen).1.eof then StreamState.finished else s.state) = .opened ↔ _
    cases (s.read maxLen).1.eof with
    | true => exact iff_of_false (fun h => by cases h) (not_not.2 rfl)
    | false => exact iff_of_true hopen (by simp)
  · have heof := (read_eof_iff s maxLen).2 ⟨hfinal, hlen⟩
    have hread : ∀ s', (c.view.read id maxLen s).streams id = some s' → s'.state ≠ .opened := by
      intro s' hs'
      obtain ⟨_, _, _, heq⟩ := c.view.read_eq id maxLen s
      rw [heq] at hs'
      obtain rfl := Option.some.inj ((View.put_self _ _ _).symm.trans hs')
      show (bif (s.read maxLen).1.eof then StreamState.finished else s.state) ≠ .opened
      rw [heof]
      exact fun h => by cases h
    have hends : Ends (readStream id maxLen) c
        (fun _ c' => ∀ s', c'.view.streams id = some s' → s'.state ≠ .opened)
        fun _ c' => ∀ s', c'.view.streams id = some s' → s'.state ≠ .opened := by
      refine (readStream_ends suite id maxLen).mono (fun r c' h => ?_) fun e c' h => ?_
      · obtain ⟨s₁, hs₁, _, _, hedits⟩ := h
        obtain rfl := Option.some.inj (hs.symm.trans hs₁)
        exact hedits.stays_closed hread
      · rcases h with ⟨_, hreset⟩ | ⟨s₁, hs₁, _, hedits⟩
        · obtain ⟨e, he⟩ := hreset s hs
          rw [hopen] at he
          cases he
        · obtain rfl := Option.some.inj (hs.symm.trans hs₁)
          exact hedits.stays_closed hread
    exact writeStream_closed hends.after data fin

/-- The server once the client has opened its first stream. -/
def sampleOpened (c : Connection) : Connection :=
  final sampleSuite c ((samplePackets.take 3).map .onDatagram)

theorem sampleOpened_reached (h : Fresh sampleSuite .server {} c) :
    Reached sampleSuite .server {} (sampleOpened c) :=
  reached_final h _

/-- A FIN with a byte before it leaves the stream open. -/
theorem half_close_iff_unread : ∃ c s, Reached sampleSuite .server {} c ∧
    c.streams.streams[0]? = some s ∧ (answer (writeStream 0 [1] false) c).isSome ∧
    ∀ c', processFrame sampleSuite .data (.streamData ⟨0, 0, true, [97]⟩) c = .ok () c' →
      (answer (writeStream 0 [1] false) c').isSome := by
  obtain ⟨c, hc, hp⟩ := of_checks (r := sampleConnection .server {})
    (p := fun c => (sampleOpened c).streams.streams[0]?.any (·.recv.nextOffset == 0) &&
      (answer (writeStream 0 [1] false) (sampleOpened c)).isSome) (by decide +kernel)
  rw [Bool.and_eq_true, Option.any_eq_true] at hp
  obtain ⟨⟨s, hs, hnext⟩, haccepted⟩ := hp
  have hreached := sampleOpened_reached (sampleConnection_fresh hc)
  refine ⟨sampleOpened c, s, hreached, hs, haccepted, fun c' hrun => ?_⟩
  refine ((half_close_iff hreached hs haccepted).1 0 [97] c' hrun).2 fun hdrained => ?_
  have hstop : s.recv.nextOffset = 0 + [97].length := hdrained.2
  rw [beq_iff_eq.1 hnext] at hstop
  cases hstop

/-- **A FIN that closes both directions.** The client ends its stream without
having sent anything; the server can no longer write to it. -/
theorem fin_closes_writing : ∃ c, Reached sampleSuite .server {} c ∧ c.state = .established ∧
    answer (writeStream 0 [1] false) c = some 1 ∧
    failure (writeStream 0 [1] false)
      (after (processFrame sampleSuite .data (.streamData ⟨0, 0, true, []⟩)) c) =
      some (.invalidState "write closed stream") := by
  obtain ⟨c, hc, hp⟩ := of_checks (r := sampleConnection .server {})
    (p := fun c => decide ((sampleOpened c).state = .established ∧
      answer (writeStream 0 [1] false) (sampleOpened c) = some 1 ∧
      failure (writeStream 0 [1] false) (after (processFrame sampleSuite .data
        (.streamData ⟨0, 0, true, []⟩)) (sampleOpened c)) =
        some (.invalidState "write closed stream"))) (by decide +kernel)
  obtain ⟨hst, hbefore, hafter⟩ := of_decide_eq_true hp
  exact ⟨sampleOpened c, sampleOpened_reached (sampleConnection_fresh hc), hst, hbefore, hafter⟩

end DartUdp.Core
