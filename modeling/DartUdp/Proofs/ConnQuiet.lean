import DartUdp.Proofs.ConnLifecycle

/-!
# What a closed connection still does

A connection that has closed is to be quiet. Every operation ends in the same
flush, though, and a batch of timers goes on after the close timer, so whether
anything comes out after the end is decided by what was waiting before it. This
file states what each operation has to find for the connection to stay quiet,
and that it then does.

The module is for `closed_is_quiet`. `processTimers_closes` and
`processFrames_closes` are the two ways to close, `perform_rests` says that no
packet comes out afterwards, `perform_calm` puts the parts together for one
operation and `final_calm` for a run.
-/

namespace DartUdp.Core

open DartUdp.Lib DartUdp.TimeWheel DartUdp.Udp

variable {suite : Suite} {c c' : Connection}

/-! ## Nothing is waiting -/

/-- No frame is queued, no stream has data that may go, and no ACK is due. -/
def Connection.idle (c : Connection) : Bool :=
  c.transport.pendingFrames.isEmpty && c.streams.takeSendable.isNone &&
    !(c.transport.ackPending && c.transport.ackReady)

theorem flush_idle (h : c.idle = true) : Ends flush c (fun _ c' => c' = c) fun _ _ => False := by
  unfold Connection.idle at h
  simp only [Bool.and_eq_true, Bool.not_eq_true', List.isEmpty_iff, Option.isNone_iff_eq_none] at h
  obtain ⟨⟨hpending, hstreams⟩, hack⟩ := h
  have honce : Ends flushOnce c (fun more c' => more = false ∧ c' = c) fun _ _ => False := by
    simp only [flushOnce, takeCandidate, takeDataCandidate, ends_bind, ends_get, hack,
      Bool.false_eq_true, if_false, hpending, hstreams, ends_pure]
    exact ⟨rfl, rfl⟩
  have hfuel : c.flushFuel ≠ 0 := Nat.succ_ne_zero _
  obtain ⟨fuel, hfuel⟩ := Nat.exists_eq_succ_of_ne_zero hfuel
  rw [flush, ends_bind, ends_get, hfuel, flushLoop, ends_bind]
  refine honce.mono (fun more c' h => ?_) fun _ _ h => h
  obtain ⟨rfl, rfl⟩ := h
  rw [if_neg Bool.false_ne_true]
  exact rfl

theorem takeSendable_eq_none {m : StreamManager} :
    m.takeSendable = none ↔
      ∀ (id : Nat) (s : StreamRecord), m.streams[id]? = some s → s.sendable = false := by
  unfold StreamManager.takeSendable
  cases hfind : m.streams.toList.find? (·.2.sendable) with
  | none =>
      refine ⟨fun _ id s hs => ?_, fun _ => rfl⟩
      have hnone := List.find?_eq_none.1 hfind (id, s)
        (Std.TreeMap.mem_toList_iff_getElem?_eq_some.2 hs)
      simpa using hnone
  | some r =>
      obtain ⟨id, s⟩ := r
      have hsendable : s.sendable = true := by simpa using List.find?_some hfind
      have hs : m.streams[id]? = some s :=
        Std.TreeMap.mem_toList_iff_getElem?_eq_some.1 (List.mem_of_find?_eq_some hfind)
      refine ⟨fun h => ?_, fun h => ?_⟩
      · unfold StreamRecord.sendable at hsendable
        cases hqueue : s.send.queue with
        | nil =>
            rw [hqueue] at hsendable
            cases hsendable
        | cons item rest =>
            simp [SendStream.popSendable, hqueue] at h
      · rw [h id s hs] at hsendable
        cases hsendable

/-- What is received on a stream makes no stream sendable. -/
theorem takeSendable_put {m : StreamManager} {id : Nat} {s s' : StreamRecord}
    (hs : m.streams[id]? = some s) (hsend : s'.send = s.send) (h : m.takeSendable = none) :
    (m.put id s').takeSendable = none := by
  rw [takeSendable_eq_none] at h ⊢
  intro i r hr
  rw [StreamManager.put, Std.TreeMap.getElem?_insert] at hr
  split at hr
  · cases hr
    have hold := h id s hs
    unfold StreamRecord.sendable at hold ⊢
    rw [hsend]
    exact hold
  · exact h i r hr

/-- No timer is pending, so there is no next deadline. -/
theorem nextDeadline_of_silent {t : TimerState} (hsound : t.Sound) (h : ∀ id, t.live id = none) :
    t.nextDeadline = .ok none := by
  obtain ⟨base, m, hshows⟩ := hsound
  have htasks : ∀ k, t.wheel.tasks.get? k = none := fun k => Option.map_eq_none_iff.1 (h k)
  have hlen : t.wheel.tasks.len = 0 := by
    rw [← SlotMap.length_keys, List.length_eq_zero_iff, List.eq_nil_iff_forall_not_mem]
    intro k hk
    rw [SlotMap.mem_keys, htasks] at hk
    cases hk
  have hheap : t.wheel.deadlineHeap.head? = none := by
    rw [List.head?_eq_getElem?]
    by_contra hne
    obtain ⟨node, hnode⟩ := Option.ne_none_iff_exists'.1 hne
    obtain ⟨_, e, he, _⟩ := hshows.sound.sync.node 0 node hnode
    cases (htasks node.key).symm.trans he
  unfold TimerState.nextDeadline Wheel.nextDeadline
  rw [hheap]
  simp only [hlen]
  rfl

/-! ## Closing -/

/-- The connection closed: it said so once, as the last thing, and has no timer. -/
structure Closes (c c' : Connection) : Prop where
  state : c'.state = .closed
  sound : Armed c → c'.timers.Sound
  silent : ∀ id, c'.timers.live id = none
  outputs : ∃ more s code, Rise False c.state more s ∧
    c'.output = c.output ++ more ++ [.connectionStateChanged .closed, .connectionClosed code]

theorem closes_of_open (hopen : c.state ≠ .closed) (e : Option Nat) (code : Nat) :
    Closes c (({ c with closeError := e, timers := c.timers.cancelAll }.setState .closed).emit
      (.connectionClosed code)) := by
  unfold Connection.setState
  rw [if_pos hopen]
  refine ⟨rfl, fun ha => TimerState.cancelAll_sound ha.sound, c.timers.cancelAll_live,
    [], c.state, code, rfl, ?_⟩
  show (c.output ++ [_]) ++ [_] = _
  rw [List.append_nil, List.append_assoc]
  rfl

theorem Closes.after {c₁ : Connection} (h : Closes c₁ c') (h₁ : Rises False c c₁) :
    Closes c c' := by
  obtain ⟨more, s, code, hrise, hout⟩ := h.outputs
  obtain ⟨more₁, hmore₁, hrise₁⟩ := h₁.outputs
  refine ⟨h.state, fun ha => h.sound (h₁.armed ha), h.silent, more₁ ++ more, s, code,
    hrise₁.append hrise, ?_⟩
  rw [hout, hmore₁]
  simp only [List.append_assoc]

/-- Slots that are cleared afterwards change nothing of it. -/
theorem Closes.rewheel {t : TimerState} (h : Closes c c') (hwheel : t.wheel = c'.timers.wheel) :
    Closes c { c' with timers := t } := by
  refine ⟨h.state, fun ha => ?_, fun id => ?_, h.outputs⟩
  · show t.Sound
    unfold TimerState.Sound
    rw [hwheel]
    exact h.sound ha
  · show t.live id = none
    unfold TimerState.live
    rw [hwheel]
    exact h.silent id

/-- The event is a retransmission that finds its packet. -/
def Connection.pends (c : Connection) : TimerEvent → Bool
  | .retransmit packetNumber generation =>
      match c.transport.sent[packetNumber]? with
      | some packet => packet.generation = generation
      | none => false
  | _ => false

/-- The events of a batch put nothing in a queue: the connection has been told to
close, no retransmission finds its packet, and no ACK becomes due. -/
structure Inert (c : Connection) (events : List TimerEvent) : Prop where
  past : ConnectionState.closing.rank ≤ c.state.rank
  stale : ∀ event ∈ events, c.pends event = false
  unasked : .ackDelay ∈ events → c.transport.ackPending = false

theorem Inert.tail {event : TimerEvent} {rest : List TimerEvent} (h : Inert c (event :: rest)) :
    Inert c rest :=
  ⟨h.past, fun e he => h.stale e (List.mem_cons_of_mem _ he),
    fun he => h.unasked (List.mem_cons_of_mem _ he)⟩

/-- On a connection past its close such an event changes nothing, but for the
keepalive that is set again. -/
theorem processTimer_inert {event : TimerEvent} {rest : List TimerEvent}
    (h : Inert c (event :: rest)) (hevent : event ≠ .closeTimeout) :
    Ends (processTimer event) c
      (fun _ c' => ∃ t, c' = { c with timers := t } ∧ Adds c.Awaits c.timers t ∧
        (event = .keepalive → c.config.keepaliveInterval = none → t = c.timers) ∧
        (event ≠ .keepalive → t = c.timers))
      fun _ c' => event = .keepalive ∧ c.config.keepaliveInterval ≠ none ∧
        ∃ t, c' = { c with timers := t } ∧ Adds c.Awaits c.timers t := by
  have hpast := h.past
  have hsame : ∃ t, c = { c with timers := t } ∧ Adds c.Awaits c.timers t ∧
      (event = .keepalive → c.config.keepaliveInterval = none → t = c.timers) ∧
      (event ≠ .keepalive → t = c.timers) :=
    ⟨c.timers, rfl, Std.Refl.refl _, fun _ _ => rfl, fun _ => rfl⟩
  cases event with
  | handshakeTimeout =>
      rw [processTimer, ends_bind, ends_get, if_neg fun hst => ?_]
      · exact hsame
      · rw [hst] at hpast
        revert hpast
        decide
  | retransmit n g =>
      have hstale := h.stale _ List.mem_cons_self
      simp only [Connection.pends] at hstale
      simp only [processTimer, closeOnLimit, processRetransmit, ends_tryCatch, ends_bind, ends_get]
      cases hs : c.transport.sent[n]? with
      | none => exact hsame
      | some packet =>
          rw [hs] at hstale
          rw [ends_ite]
          exact ⟨fun _ => hsame, fun hne => absurd (not_not.1 hne) (of_decide_eq_false hstale)⟩
  | ackDelay =>
      have hack := h.unasked List.mem_cons_self
      have hnothing : c.transport.onAckTimer = c.transport := by
        unfold TransportState.onAckTimer
        rw [hack]
        rfl
      rw [processTimer, ends_modifyTransport, hnothing]
      exact hsame
  | keepalive =>
      have hstate : c.state ≠ .established := fun hst => by
        rw [hst] at hpast
        revert hpast
        decide
      simp only [processTimer, ends_steps, ends_modifyTransport]
      refine ⟨fun hst => absurd hst hstate, fun _ => ?_⟩
      cases hk : c.config.keepaliveInterval with
      | none => exact ⟨c.timers, rfl, Std.Refl.refl _, fun _ _ => rfl, fun _ => rfl⟩
      | some interval =>
          refine ends_zoom.2 (Ends.mono (Adds.scheduleKeepalive trivial interval)
            (fun _ t ht => ⟨t, rfl, ht, fun _ h => (by cases h), fun hne => absurd rfl hne⟩)
            fun _ t ht => ⟨trivial, fun h => (by cases h), t, rfl, ht⟩)
  | idleTimeout =>
      have hended : (c.state ≠ .closed && c.state ≠ .closing : Bool) = false := by
        revert hpast
        cases c.state <;> decide
      rw [processTimer, ends_bind, ends_get, hended]
      exact hsame
  | closeTimeout => exact absurd rfl hevent

/-- The end of the close timer closes an open connection. -/
theorem processTimer_closes (hopen : c.state ≠ .closed) :
    Ends (processTimer .closeTimeout) c
      (fun _ c' => Closes c c' ∧ c'.transport = c.transport ∧ c'.streams = c.streams ∧
        c'.config = c.config)
      fun _ _ => False := by
  rw [processTimer, ends_modify]
  refine ⟨closes_of_open hopen c.closeError (c.closeError.getD 0), ?_⟩
  unfold Connection.setState
  rw [if_pos hopen]
  exact ⟨rfl, rfl, rfl⟩

/-- What is left of a batch after the close timer clears slots. -/
theorem processTimers_over {events : List TimerEvent} (h : Inert c events)
    (honce : .closeTimeout ∉ events)
    (hkeep : c.config.keepaliveInterval = none ∨ .keepalive ∉ events) :
    Ends (processTimers events) c
      (fun _ c' => ∃ t, c' = { c with timers := t } ∧ t.wheel = c.timers.wheel)
      fun _ _ => False := by
  induction events generalizing c with
  | nil => exact ⟨c.timers, rfl, rfl⟩
  | cons event rest ih =>
      rw [processTimers, ends_bind, ends_modify, ends_bind]
      have hcleared : Inert { c with timers := c.timers.clearSlot event } (event :: rest) :=
        ⟨h.past, h.stale, h.unasked⟩
      have hnoted : event = .keepalive → c.config.keepaliveInterval = none := fun heq =>
        hkeep.resolve_right fun hmem => hmem (heq ▸ List.mem_cons_self)
      refine (processTimer_inert hcleared fun heq => honce (heq ▸ List.mem_cons_self)).mono
        (fun _ c' h' => ?_) fun _ _ h' => h'.2.1 (hnoted h'.1)
      obtain ⟨t, rfl, _, hkept, hother⟩ := h'
      obtain rfl : t = c.timers.clearSlot event := by
        by_cases heq : event = .keepalive
        · exact hkept heq (hnoted heq)
        · exact hother heq
      refine (ih hcleared.tail (fun hmem => honce (List.mem_cons_of_mem _ hmem))
        (hkeep.imp_right fun hnone hmem => hnone (List.mem_cons_of_mem _ hmem))).mono
        (fun _ c' h' => ?_) fun _ _ h' => h'
      obtain ⟨t', rfl, hwheel⟩ := h'
      refine ⟨t', rfl, hwheel.trans ?_⟩
      cases event <;> rfl

/-- **The closing batch.** The connection closes with the close timer, and nothing
else is touched. -/
theorem processTimers_closes {events : List TimerEvent} (hstate : c.state = .closing)
    (h : Inert c events) (honce : events.count .closeTimeout = 1)
    (hkeep : c.config.keepaliveInterval = none ∨
      .keepalive ∉ events.dropWhile (· ≠ .closeTimeout)) :
    Ends (processTimers events) c
      (fun _ c' => Closes c c' ∧ c'.transport = c.transport ∧ c'.streams = c.streams)
      fun _ c' => Rises False c c' := by
  induction events generalizing c with
  | nil => cases honce
  | cons event rest ih =>
      rw [processTimers, ends_bind, ends_modify, ends_bind]
      have hcleared : Inert { c with timers := c.timers.clearSlot event } (event :: rest) :=
        ⟨h.past, h.stale, h.unasked⟩
      have hslot : Rises False c { c with timers := c.timers.clearSlot event } :=
        .mute rfl rfl rfl (Nat.le_refl _) (.clearSlot event)
      have hstate₀ :
          ({ c with timers := c.timers.clearSlot event } : Connection).state = .closing :=
        hstate
      have hkeep₀ : ({ c with timers := c.timers.clearSlot event } :
          Connection).config.keepaliveInterval = none ∨
          .keepalive ∉ (event :: rest).dropWhile (· ≠ .closeTimeout) := hkeep
      have hsame₀ : ({ c with timers := c.timers.clearSlot event } : Connection).transport =
          c.transport ∧ ({ c with timers := c.timers.clearSlot event } : Connection).streams =
          c.streams := ⟨rfl, rfl⟩
      generalize ({ c with timers := c.timers.clearSlot event } : Connection) = c₀
        at hcleared hslot hkeep₀ hstate₀ hsame₀
      by_cases hevent : event = .closeTimeout
      · subst hevent
        rw [List.count_cons_self, Nat.add_eq_right, List.count_eq_zero] at honce
        rw [List.dropWhile_cons, if_neg (by simp)] at hkeep₀
        have hopen : c₀.state ≠ .closed := by rw [hstate₀]; decide
        refine (processTimer_closes hopen).mono (fun _ c₁ h₁ => ?_) fun _ _ h₁ => h₁.elim
        obtain ⟨hcloses, htransport, hstreams, hconfig⟩ := h₁
        have hover : Inert c₁ rest := by
          refine ⟨?_, fun e he => ?_, fun hack => ?_⟩
          · rw [hcloses.state]
            decide
          · have hstale := hcleared.tail.stale e he
            unfold Connection.pends at hstale ⊢
            rw [htransport]
            exact hstale
          · rw [htransport]
            exact hcleared.tail.unasked hack
        rw [← hconfig] at hkeep₀
        refine (processTimers_over hover honce (hkeep₀.imp_right fun hnone hmem =>
          hnone (List.mem_cons_of_mem _ hmem))).mono (fun _ c₂ h₂ => ?_) fun _ _ h₂ => h₂.elim
        obtain ⟨t, rfl, hwheel⟩ := h₂
        exact ⟨(hcloses.rewheel hwheel).after hslot, htransport.trans hsame₀.1,
          hstreams.trans hsame₀.2⟩
      · rw [List.count_cons_of_ne hevent] at honce
        rw [List.dropWhile_cons, if_pos (by simpa using hevent)] at hkeep₀
        refine (processTimer_inert hcleared hevent).mono (fun _ c₁ h₁ => ?_) fun _ c₁ h₁ => ?_
        · obtain ⟨t, rfl, hadds, _⟩ := h₁
          have hset : Rises False c { c₀ with timers := t } :=
            hslot.trans (.mute rfl rfl rfl (Nat.le_refl _) hadds)
          refine (ih (c := { c₀ with timers := t }) hstate₀
            ⟨hcleared.past, hcleared.tail.stale, hcleared.tail.unasked⟩ honce hkeep₀).mono
            (fun _ c₂ h₂ => ?_) fun _ _ h₂ => hset.trans h₂
          exact ⟨h₂.1.after hset, h₂.2.1.trans hsame₀.1, h₂.2.2.trans hsame₀.2⟩
        · obtain ⟨_, _, t, rfl, hadds⟩ := h₁
          exact hslot.trans (.mute rfl rfl rfl (Nat.le_refl _) hadds)

/-! ## A close from the peer -/

/-- The frames that a packet of type Close may carry. -/
def withClose : Frame → Bool
  | .ack _ => true
  | .pong _ => true
  | .connectionClose _ => true
  | _ => false

def isConnectionClose : Frame → Bool
  | .connectionClose _ => true
  | _ => false

theorem withClose_of_isAck {f : Frame} (h : f.isAck = true) : withClose f = true := by
  cases f with
  | ack a => rfl
  | _ => cases h

/-- How many closes are handled before a frame is refused. -/
def closeCount (frames : List Frame) : Nat :=
  (frames.takeWhile withClose).countP isConnectionClose

theorem processFrame_refused {f : Frame} (h : withClose f = false) :
    Ends (processFrame suite .close f) c (fun _ _ => False) fun _ c' => c' = c := by
  cases f with
  | clientHello hello =>
      simp only [processFrame, processClientHello, receiveClientHello, ends_steps]
      exact ⟨fun _ => trivial, fun hne => absurd (by simp) hne⟩
  | serverHello hello =>
      simp only [processFrame, processServerHello, receiveServerHello, ends_steps]
      exact ⟨fun _ => trivial, fun hne => absurd (by simp) hne⟩
  | handshakeAck ack =>
      simp only [processFrame, processHandshakeAck, receiveHandshakeAck, ends_steps]
      exact ⟨fun _ => trivial, fun hne => absurd (by simp) hne⟩
  | retry cookie =>
      simp only [processFrame, processRetry, receiveRetry, ends_steps]
      exact ⟨fun _ => trivial, fun hne => absurd (by simp) hne⟩
  | ack a => cases h
  | pong nonce => cases h
  | connectionClose frame => cases h
  | _ =>
      refine ends_bind.2 (ends_ensureData.2 ⟨fun hdata => ?_, fun _ => rfl⟩)
      cases hdata.1

theorem processFrame_passed {f : Frame} (h : withClose f = true)
    (hf : isConnectionClose f = false) :
    Ends (processFrame suite .close f) c (fun _ c' => c' = c) fun _ _ => False := by
  cases f with
  | ack a => exact rfl
  | pong nonce => exact rfl
  | connectionClose frame => cases hf
  | _ => cases h

theorem closeCount_cons_of_not {f : Frame} {rest : List Frame} (h : withClose f = true)
    (hf : isConnectionClose f = false) : closeCount (f :: rest) = closeCount rest := by
  unfold closeCount
  rw [List.takeWhile_cons, if_pos h, List.countP_cons_of_neg (by simpa using hf)]

/-- Without a close the frames of such a packet change nothing. -/
theorem processFrames_inert {frames : List Frame} (hnone : closeCount frames = 0) :
    Ends (processFrames suite .close frames) c
      (fun _ c' => c' = c ∧ frames.all withClose = true) fun _ c' => c' = c := by
  induction frames with
  | nil => exact ⟨rfl, rfl⟩
  | cons f rest ih =>
      rw [processFrames, ends_ite, ends_bind]
      cases hf : withClose f with
      | false =>
          refine ⟨fun _ => (processFrame_refused hf).mono (fun _ _ h => h.elim) fun _ _ h => h,
            fun hack => ?_⟩
          rw [withClose_of_isAck (by simpa using hack)] at hf
          cases hf
      | true =>
          have hclose : isConnectionClose f = false := by
            unfold closeCount at hnone
            rw [List.takeWhile_cons, if_pos hf, List.countP_eq_zero] at hnone
            simpa using hnone f List.mem_cons_self
          rw [closeCount_cons_of_not hf hclose] at hnone
          rw [List.all_cons, hf, Bool.true_and]
          refine ⟨fun _ => ?_, fun _ => ih hnone⟩
          refine (processFrame_passed hf hclose).mono (fun _ c' h => ?_) fun _ _ h => h.elim
          rw [h]
          exact ih hnone

/-- With one close they close an open connection. -/
theorem processFrames_closes {frames : List Frame} (hopen : c.state ≠ .closed)
    (hone : closeCount frames = 1) (hrefused : frames.all withClose = false) :
    Ends (processFrames suite .close frames) c (fun _ _ => False) fun _ c' => Closes c c' := by
  induction frames with
  | nil => cases hone
  | cons f rest ih =>
      rw [processFrames, ends_ite, ends_bind]
      cases hf : withClose f with
      | false =>
          unfold closeCount at hone
          rw [List.takeWhile_cons, hf] at hone
          cases hone
      | true =>
          rw [List.all_cons, hf, Bool.true_and] at hrefused
          by_cases hclose : ∃ frame, f = .connectionClose frame
          · obtain ⟨frame, rfl⟩ := hclose
            have hrest : closeCount rest = 0 := by
              unfold closeCount at hone ⊢
              rw [List.takeWhile_cons, if_pos hf, List.countP_cons_of_pos rfl] at hone
              omega
            refine ⟨fun _ => ?_, fun hack => absurd rfl hack⟩
            simp only [processFrame, processConnectionClose, ends_steps]
            refine ⟨fun hne => absurd rfl hne, fun _ => ?_⟩
            refine (processFrames_inert hrest).mono (fun _ c' h => ?_) fun _ c' h => ?_
            · rw [h.2] at hrefused
              cases hrefused
            · rw [h]
              exact closes_of_open hopen _ _
          · have hother : isConnectionClose f = false := by
              cases f <;> first | rfl | exact absurd ⟨_, rfl⟩ hclose
            rw [closeCount_cons_of_not hf hother] at hone
            refine ⟨fun _ => ?_, fun _ => ih hone hrefused⟩
            refine (processFrame_passed hf hother).mono (fun _ c' h => ?_) fun _ _ h => h.elim
            rw [h]
            exact ih hone hrefused

/-- The connection acts on the closes of the packet. -/
def Connection.hears (c : Connection) (p : Packet) : Prop :=
  p.connectionId = c.id ∧ p.packetType = .close ∧ c.isNew p = true

/-- No close of the packet is handled, or one is and a later frame is refused, so
that the packet is not acknowledged. -/
def CalmPacket (c : Connection) (p : Packet) : Prop :=
  c.hears p → closeCount p.frames = 0 ∨
    closeCount p.frames = 1 ∧ p.frames.all withClose = false

theorem onDatagram_calm (p : Packet) (h : CalmPacket c p) :
    Ends (onDatagram suite p) c (fun _ c' => Rises False c c')
      fun _ c' => Rises False c c' ∨ Closes c c' := by
  refine onDatagram_ends p (fun _ => .inl) fun hopen hid hnew c₁ h₁ => ?_
  by_cases htype : p.packetType = .close
  · have hheard : c.hears p := ⟨hid, htype, hnew.resolve_left (by rw [htype]; exact nofun)⟩
    rw [htype]
    rcases h hheard with hnone | ⟨hone, hrefused⟩
    · exact (processFrames_inert hnone).mono (fun _ _ h' => h'.1 ▸ h₁) fun _ _ h' => .inl (h' ▸ h₁)
    · exact (processFrames_closes (h₁.opened hopen) hone hrefused).mono (fun _ _ h' => h'.elim)
        fun _ _ h' => .inr (h'.after h₁)
  · exact Ends.mono (Within.trans h₁ (processFrames_rises _ _ fun heq => absurd heq htype))
      (fun _ _ h' => h') fun _ _ => .inl

/-- Decoding changes the keys' replay window only. -/
theorem decodeDatagram_crypto (bytes : Bytes) :
    Ends (decodeDatagram suite bytes) c
      (fun p c' => p ∈ decoded suite bytes c ∧ ∃ crypto, c' = { c with packetCrypto := crypto })
      fun _ c' => ∃ crypto, c' = { c with packetCrypto := crypto } := by
  have hcrypto : Ends (decodeDatagram suite bytes) c
      (fun _ c' => ∃ crypto, c' = { c with packetCrypto := crypto })
      fun _ c' => ∃ crypto, c' = { c with packetCrypto := crypto } := by
    have hsame : ∃ crypto, c = { c with packetCrypto := crypto } := ⟨c.packetCrypto, rfl⟩
    simp only [decodeDatagram, ends_steps, ends_ofExcept]
    refine ⟨fun _ _ => ⟨fun _ => ?_, fun _ => ⟨fun _ _ => hsame, fun _ _ => hsame⟩⟩,
      fun _ _ => hsame⟩
    split
    · exact hsame
    · simp only [ends_bind, ends_modify, ends_ofExcept]
      exact ⟨fun _ _ => ⟨_, rfl⟩, fun _ _ => ⟨_, rfl⟩⟩
  refine ((Ends.run _ _).and hcrypto).mono (fun p c' h => ⟨?_, h.2⟩) fun _ _ h => h.2
  unfold decoded answer
  rw [h.1]
  rfl

theorem onDatagramBytes_calm (bytes : Bytes) (h : ∀ p ∈ decoded suite bytes c, CalmPacket c p) :
    Ends (onDatagramBytes suite bytes) c (fun _ c' => Rises False c c' ∨ Closes c c')
      fun _ c' => Rises False c c' ∨ Closes c c' := by
  have hstill : ∀ crypto, Rises False c { c with packetCrypto := crypto } := fun _ =>
    Still.rises ⟨rfl, rfl, rfl, rfl, rfl, rfl⟩
  rw [onDatagramBytes, ends_bind]
  refine (decodeDatagram_crypto bytes).mono (fun p c₁ h₁ => ?_) fun _ c₁ h₁ => ?_
  · obtain ⟨hp, crypto, rfl⟩ := h₁
    have hcalm : CalmPacket { c with packetCrypto := crypto } p := h p hp
    exact (onDatagram_calm p hcalm).mono (fun _ _ h' => .inl ((hstill crypto).trans h'))
      fun _ _ h' => h'.imp (hstill crypto).trans fun h'' => h''.after (hstill crypto)
  · obtain ⟨crypto, rfl⟩ := h₁
    exact .inl (hstill crypto)

/-! ## The end of the close timer -/

/-- Nothing goes out after the close timer, and no timer is set: the batch has the
end of the close timer once, its other events find nothing to do, no keepalive
follows, and nothing is waiting. -/
structure CalmBatch (c : Connection) (events : List TimerEvent) : Prop where
  once : events.count .closeTimeout = 1
  keepalive : c.config.keepaliveInterval = none ∨
    .keepalive ∉ events.dropWhile (· ≠ .closeTimeout)
  stale : ∀ event ∈ events, c.pends event = false
  unasked : .ackDelay ∈ events → c.transport.ackPending = false
  idle : c.idle = true

/-- A batch that reaches the end of the close timer is calm. -/
def CalmClose (c : Connection) (events : List TimerEvent) : Prop :=
  .closeTimeout ∈ events.takeWhile (!c.givesUp ·) → CalmBatch c events

theorem advanceTime_calm (ha : Armed c) (hopen : c.state ≠ .closed) {elapsed : Nat}
    (h : CalmClose c (c.due elapsed)) :
    Ends (advanceTime elapsed) c (fun _ c' => Rises False c c' ∨ Closes c c')
      fun _ c' => Rises False c c' ∨ Closes c c' := by
  by_cases hhit : .closeTimeout ∈ (c.due elapsed).takeWhile (!c.givesUp ·)
  · obtain ⟨honce, hkeep, hstale, hack, hidle⟩ := h hhit
    simp only [advanceTime, ends_steps, onTimers, ends_zoom]
    refine ⟨fun _ => .inl (Std.Refl.refl c), fun _ => ?_⟩
    refine (advance_due ha elapsed).mono (fun events t ht => ?_)
      fun _ t ht => .inl (.mute rfl rfl rfl (Nat.le_refl _) ht)
    obtain ⟨rfl, hadds, hawaits⟩ := ht
    have hpast : ConnectionState.closing.rank ≤ c.state.rank :=
      hawaits _ ((List.takeWhile_sublist _).mem hhit)
    have hstate : c.state = .closing := by
      revert hpast hopen
      cases c.state <;> decide
    have hlater : Rises False c { c with now := c.now + elapsed, timers := t } :=
      .mute rfl rfl rfl (Nat.le_refl _) hadds
    refine (processTimers_closes (c := { c with now := c.now + elapsed, timers := t }) hstate
      ⟨hpast, hstale, hack⟩ honce hkeep).mono (fun _ c₁ h₁ => ?_)
      fun _ _ h₁ => .inl (hlater.trans h₁)
    obtain ⟨hcloses, htransport, hstreams⟩ := h₁
    have hidle₁ : c₁.idle = true := by
      unfold Connection.idle at hidle ⊢
      rw [htransport, hstreams]
      exact hidle
    exact (flush_idle hidle₁).mono (fun _ _ h₂ => h₂ ▸ .inr (hcloses.after hlater))
      fun _ _ h₂ => h₂.elim
  · have horderly : Orderly c (c.due elapsed) := fun hlate =>
      (hlate.elim hopen hhit).elim
    exact Ends.mono (advanceTime_rises (F := False) ha horderly hhit)
      (fun _ _ => .inl) fun _ _ => .inl

/-! ## After the end -/

/-- The connection is closed, and no timer is pending. -/
structure Rests (c : Connection) : Prop where
  state : c.state = .closed
  sound : c.timers.Sound
  silent : ∀ id, c.timers.live id = none

/-- The output is neither a packet nor news of the connection itself. -/
def CoreOutput.isHushed : CoreOutput → Bool
  | .send _ => false
  | .connectionStateChanged _ => false
  | .connectionClosed _ => false
  | _ => true

/-- The connection rests on, and only tells of its streams. -/
def Hushes (c c' : Connection) : Prop :=
  Rests c' ∧ ∃ more : List CoreOutput, c'.output = c.output ++ more ∧
    more.all CoreOutput.isHushed = true

theorem Rests.stay (h : Rests c) (hstate : c'.state = c.state) (htimers : c'.timers = c.timers)
    (hout : c'.output = c.output) : Hushes c c' := by
  refine ⟨⟨hstate.trans h.state, htimers ▸ h.sound, htimers ▸ h.silent⟩, [], ?_, rfl⟩
  rw [hout, List.append_nil]

theorem Hushes.after {c₁ : Connection} (h : Hushes c₁ c') (hout : c₁.output = c.output) :
    Hushes c c' := ⟨h.1, hout ▸ h.2⟩

theorem onDatagram_rests (h : Rests c) (p : Packet) : Within Hushes (onDatagram suite p) c := by
  simp only [onDatagram, Within, ends_steps]
  exact ⟨fun _ => h.stay rfl rfl rfl, fun hne => absurd h.state hne⟩

theorem onDatagramBytes_rests (h : Rests c) (bytes : Bytes) :
    Within Hushes (onDatagramBytes suite bytes) c := by
  rw [onDatagramBytes, Within, ends_bind]
  refine Ends.mono (decodeDatagram_still bytes) (fun p c₁ h₁ => ?_)
    fun _ _ h₁ => h.stay h₁.state h₁.timers h₁.output
  obtain ⟨hrests, _⟩ := h.stay h₁.state h₁.timers h₁.output
  exact Ends.mono (onDatagram_rests hrests p) (fun _ _ h' => h'.after h₁.output)
    fun _ _ h' => h'.after h₁.output

/-- An advance of the wheel hands nothing out, and nothing is sent. -/
theorem advanceTime_rests (h : Rests c) (hidle : c.idle = true) (elapsed : Nat) :
    Within Hushes (advanceTime elapsed) c := by
  simp only [advanceTime, Within, ends_steps, onTimers, ends_zoom]
  refine ⟨fun _ => h.stay rfl rfl rfl, fun _ => ?_⟩
  have hset : ∀ t, Adds (fun _ => False) c.timers t →
      Hushes c { c with now := c.now + elapsed, timers := t } := fun t hadds => by
    obtain ⟨hsound, hlive⟩ := hadds h.sound
    refine ⟨⟨h.state, hsound, fun id => ?_⟩, [], (List.append_nil _).symm, rfl⟩
    cases hid : t.live id with
    | none => rfl
    | some event =>
        have hold := (hlive id event hid).resolve_left not_false
        rw [h.silent] at hold
        cases hold
  refine ((Adds.advance elapsed).and (advance_ends h.sound elapsed)).mono (fun events t ht => ?_)
    fun _ t ht => hset t ht.1
  obtain ⟨hadds, ids, _, hids, _⟩ := ht
  obtain rfl : events = [] := by
    cases events with
    | nil => rfl
    | cons event rest =>
        have hin : some event ∈ ids.map c.timers.live := hids ▸ List.mem_cons_self
        obtain ⟨id, _, hid⟩ := List.mem_map.1 hin
        cases (h.silent id).symm.trans hid
  exact (flush_idle (c := { c with now := c.now + elapsed, timers := t }) hidle).mono
    (fun _ _ h' => h' ▸ hset t hadds) fun _ _ h' => h'.elim

/-- The read takes bytes that move the limit of the stream, which is then
announced. -/
def StreamRecord.announces (s : StreamRecord) (maxLen : Nat) : Bool :=
  (s.recvFlow.consume (s.recv.read maxLen).1.length).1.isSome

/-- The stream can be read. -/
def StreamRecord.readable (s : StreamRecord) : Bool :=
  match s.state with
  | .reset _ => false
  | _ => true

/-- A read of the stream queues nothing and finds nothing waiting, unless it is
refused. -/
def CalmRead (c : Connection) (streamId maxLen : Nat) : Prop :=
  ∀ s ∈ c.streams.streams[streamId]?, s.readable = true →
    s.announces maxLen = false ∧ c.idle = true

theorem readStream_rests (h : Rests c) {streamId maxLen : Nat}
    (hcalm : CalmRead c streamId maxLen) :
    Within Hushes (readStream streamId maxLen) c := by
  simp only [readStream, readRecord, Within, ends_bind, ends_onStreams, ends_record]
  refine ⟨fun s hs => ?_, fun _ => h.stay rfl rfl rfl⟩
  split
  · exact h.stay rfl rfl rfl
  · next hopen =>
      have hread : s.readable = true := by
        unfold StreamRecord.readable
        split
        · next e he => exact absurd he (hopen e)
        · rfl
      obtain ⟨hquiet, hidle⟩ := hcalm s hs hread
      have hupdate : (s.read maxLen).1.windowUpdate = none := by
        unfold StreamRecord.announces at hquiet
        exact Option.isNone_iff_eq_none.1 (Option.isSome_eq_false_iff.1 hquiet)
      have hsent : (c.streams.put streamId (s.read maxLen).2).takeSendable = none := by
        refine takeSendable_put hs rfl ?_
        unfold Connection.idle at hidle
        simp only [Bool.and_eq_true, Option.isNone_iff_eq_none] at hidle
        exact hidle.1.2
      -- The rest of the read, on a connection that differs in its streams and limits.
      have htail : ∀ limits, Ends (do
            if (s.read maxLen).1.eof then modify (·.emit (.streamFinished streamId))
            flush
            return (⟨(s.read maxLen).1.data, (s.read maxLen).1.eof⟩ : ReadResult))
          { c with
            streams := c.streams.put streamId (s.read maxLen).2, connectionReceive := limits }
          (fun _ c' => Hushes c c') fun _ c' => Hushes c c' := by
        intro limits
        generalize hc₁ : ({ c with
          streams := c.streams.put streamId (s.read maxLen).2
          connectionReceive := limits } : Connection) = c₁
        have hidle₁ : c₁.idle = true := by
          subst hc₁
          unfold Connection.idle at hidle ⊢
          simp only [Bool.and_eq_true] at hidle ⊢
          exact ⟨⟨hidle.1.1, Option.isNone_iff_eq_none.2 hsent⟩, hidle.2⟩
        have hrests₁ : Rests c₁ := hc₁ ▸ ⟨h.state, h.sound, h.silent⟩
        have hout₁ : c₁.output = c.output := hc₁ ▸ rfl
        rw [ends_ite, ends_bind, ends_modify, ends_bind, ends_bind]
        refine ⟨fun _ => ?_, fun _ => ?_⟩
        · refine (flush_idle (c := c₁.emit (.streamFinished streamId)) hidle₁).mono
            (fun _ c₂ h₂ => ?_) fun _ _ h₂ => h₂.elim
          subst h₂
          exact ⟨⟨hrests₁.state, hrests₁.sound, hrests₁.silent⟩, [.streamFinished streamId],
            congrArg (· ++ _) hout₁, rfl⟩
        · refine (flush_idle hidle₁).mono (fun _ c₂ h₂ => ?_) fun _ _ h₂ => h₂.elim
          subst h₂
          exact ⟨hrests₁, [], hout₁.trans (List.append_nil _).symm, rfl⟩
      simp only [ends_bind, ends_modify, ends_pure, hupdate]
      exact ends_ite.2 ⟨fun _ => htail _, fun _ => htail c.connectionReceive⟩

/-! ## Runs -/

/-- The operation keeps a closed connection quiet, and closes an open one quietly. -/
def CalmStep (suite : Suite) (c : Connection) : Op → Prop
  | .onDatagram p => c.state ≠ .closed → CalmPacket c p
  | .onDatagramBytes bytes => c.state ≠ .closed → ∀ p ∈ decoded suite bytes c, CalmPacket c p
  | .advanceTime elapsed =>
      (c.state = .closed → c.idle = true) ∧ (c.state ≠ .closed → CalmClose c (c.due elapsed))
  | .readStream streamId maxLen => c.state = .closed → CalmRead c streamId maxLen
  | _ => True

/-- Every operation of the run does so in the state it finds. -/
def CalmRun (suite : Suite) (c : Connection) : List Op → Prop
  | [] => True
  | op :: ops => CalmStep suite c op ∧ CalmRun suite (after (perform suite op) c) ops

instance (p : Packet) : Decidable (CalmPacket c p) :=
  inferInstanceAs (Decidable (_ ∧ _ ∧ _ → _ ∨ _ ∧ _))

instance (events : List TimerEvent) : Decidable (CalmBatch c events) :=
  decidable_of_iff (events.count .closeTimeout = 1 ∧ (c.config.keepaliveInterval = none ∨
      .keepalive ∉ events.dropWhile (· ≠ .closeTimeout)) ∧
      (∀ event ∈ events, c.pends event = false) ∧
      (.ackDelay ∈ events → c.transport.ackPending = false) ∧ c.idle = true)
    ⟨fun ⟨once, keepalive, stale, unasked, idle⟩ => ⟨once, keepalive, stale, unasked, idle⟩,
      fun ⟨once, keepalive, stale, unasked, idle⟩ => ⟨once, keepalive, stale, unasked, idle⟩⟩

instance (events : List TimerEvent) : Decidable (CalmClose c events) :=
  inferInstanceAs (Decidable (_ → _))

instance (streamId maxLen : Nat) : Decidable (CalmRead c streamId maxLen) :=
  inferInstanceAs (Decidable (∀ s ∈ _, _))

instance : (op : Op) → Decidable (CalmStep suite c op)
  | .onDatagram _ => inferInstanceAs (Decidable (_ → CalmPacket _ _))
  | .onDatagramBytes _ => inferInstanceAs (Decidable (_ → ∀ p ∈ _, CalmPacket _ p))
  | .advanceTime _ => inferInstanceAs (Decidable ((_ → _) ∧ (_ → CalmClose _ _)))
  | .readStream _ _ => inferInstanceAs (Decidable (_ → CalmRead _ _ _))
  | .openStream | .writeStream .. | .close .. | .drainOutput => .isTrue trivial

instance CalmRun.decidable : (c : Connection) → (ops : List Op) → Decidable (CalmRun suite c ops)
  | _, [] => .isTrue trivial
  | c, op :: ops =>
      have := CalmRun.decidable (after (perform suite op) c) ops
      inferInstanceAs (Decidable (_ ∧ _))

theorem perform_rests (h : Rests c) {op : Op} (hop : op ≠ .drainOutput)
    (hcalm : CalmStep suite c op) :
    Hushes c (after (perform suite op) c) := by
  have hclosed : ∀ operation, Ends (ensureEstablished operation) c (fun _ _ => False)
      fun _ c' => Hushes c c' := fun operation => by
    simp only [ensureEstablished, ends_steps]
    refine ⟨fun _ => h.stay rfl rfl rfl, fun hest => ?_⟩
    rw [not_not, h.state] at hest
    cases hest
  refine Within.after ?_
  cases op with
  | onDatagram p =>
      exact ends_bind.2 (Ends.mono (onDatagram_rests h p) (fun _ _ h' => h') fun _ _ h' => h')
  | onDatagramBytes bytes =>
      exact ends_bind.2 (Ends.mono (onDatagramBytes_rests h bytes) (fun _ _ h' => h')
        fun _ _ h' => h')
  | advanceTime elapsed =>
      exact ends_bind.2 (Ends.mono (advanceTime_rests h (hcalm.1 h.state) elapsed)
        (fun _ _ h' => h') fun _ _ h' => h')
  | openStream =>
      exact ends_map.2 (ends_bind.2 ((hclosed _).mono (fun _ _ h' => h'.elim) fun _ _ h' => h'))
  | writeStream id data fin =>
      exact ends_map.2 (ends_bind.2 ((hclosed _).mono (fun _ _ h' => h'.elim) fun _ _ h' => h'))
  | readStream id maxLen => exact ends_map.2 (readStream_rests h (hcalm h.state))
  | close errorCode reason =>
      refine ends_bind.2 (ends_bind.2 (ends_get.2 (ends_ite.2 ⟨fun _ => h.stay rfl rfl rfl,
        fun hne => absurd h.state hne⟩)))
  | drainOutput => exact absurd rfl hop

/-- An operation on an open connection leaves it open or closes it quietly. -/
theorem perform_calm (ha : Armed c) (hopen : c.state ≠ .closed) {op : Op} (hop : op ≠ .drainOutput)
    (hcalm : CalmStep suite c op) :
    Rises False c (after (perform suite op) c) ∨ Closes c (after (perform suite op) c) := by
  refine Within.after (R := fun c c' => Rises False c c' ∨ Closes c c') ?_
  cases op with
  | onDatagram p =>
      exact ends_bind.2 ((onDatagram_calm p (hcalm hopen)).mono (fun _ _ => .inl) fun _ _ h => h)
  | onDatagramBytes bytes =>
      exact ends_bind.2 (onDatagramBytes_calm bytes (hcalm hopen))
  | advanceTime elapsed =>
      exact ends_bind.2 ((advanceTime_calm ha hopen (hcalm.2 hopen)).mono (fun _ _ h => h)
        fun _ _ h => h)
  | openStream => exact ends_map.2 (Ends.mono openStream_rises (fun _ _ => .inl) fun _ _ => .inl)
  | writeStream id data fin =>
      exact ends_map.2 (Ends.mono (writeStream_rises id data fin) (fun _ _ => .inl) fun _ _ => .inl)
  | readStream id maxLen =>
      exact ends_map.2 (Ends.mono (readStream_rises id maxLen) (fun _ _ => .inl) fun _ _ => .inl)
  | close errorCode reason =>
      exact ends_bind.2 (Ends.mono (close_rises errorCode reason) (fun _ _ => .inl) fun _ _ => .inl)
  | drainOutput => exact absurd rfl hop

theorem outputs_rest {ops : List Op} (h : Rests c) (hcalm : CalmRun suite c ops) :
    Rests (final suite c ops) ∧
      ∃ more : List CoreOutput, outputs suite c ops = c.output ++ more ∧
        more.all CoreOutput.isHushed = true := by
  induction ops generalizing c with
  | nil => exact ⟨h, [], (List.append_nil _).symm, rfl⟩
  | cons op rest ih =>
      by_cases hop : op = .drainOutput
      · subst hop
        have hdrained : Rests { c with output := [] } := ⟨h.state, h.sound, h.silent⟩
        obtain ⟨hrests, more, hmore, hhushed⟩ := ih (c := { c with output := [] }) hdrained hcalm.2
        exact ⟨hrests, more, congrArg (c.output ++ ·) hmore, hhushed⟩
      · have hstep : Hushes c (after (perform suite op) c) := perform_rests h hop hcalm.1
        obtain ⟨hrests, more, hmore, hhushed⟩ := hstep
        obtain ⟨hfinal, more', hmore', hhushed'⟩ := ih hrests hcalm.2
        refine ⟨hfinal, more ++ more', ?_, ?_⟩
        · rw [outputs, drained_eq_nil suite hop, List.nil_append, hmore', hmore, List.append_assoc]
        · rw [List.all_append, hhushed, hhushed']
          rfl

/-- How the outputs of a connection go on from an open state: without a word of
its end, or with the two outputs that tell it and then news of the streams. -/
def Told (s : ConnectionState) (outs : List CoreOutput) (closed : Prop) : Prop :=
  (¬ closed ∧ ∃ s', Rise False s outs s') ∨
    (closed ∧ ∃ before s' code rest, Rise False s before s' ∧
      outs = before ++ .connectionStateChanged .closed :: .connectionClosed code :: rest ∧
      rest.all CoreOutput.isHushed = true)

theorem Told.after {s s₁ : ConnectionState} {outs more : List CoreOutput} {closed : Prop}
    (h : Told s₁ outs closed) (hrise : Rise False s more s₁) : Told s (more ++ outs) closed := by
  rcases h with ⟨hopen, s', hs'⟩ | ⟨hclosed, before, s', code, rest, hbefore, rfl, hrest⟩
  · exact .inl ⟨hopen, s', hrise.append hs'⟩
  · exact .inr ⟨hclosed, more ++ before, s', code, rest, hrise.append hbefore,
      (List.append_assoc _ _ _).symm, hrest⟩

theorem outputs_told {ops : List Op} (ha : Armed c) (hopen : c.state ≠ .closed)
    (hcalm : CalmRun suite c ops) :
    ∃ more, outputs suite c ops = c.output ++ more ∧
      Told c.state more ((final suite c ops).state = .closed) := by
  induction ops generalizing c with
  | nil => exact ⟨[], (List.append_nil _).symm, .inl ⟨hopen, c.state, rfl⟩⟩
  | cons op rest ih =>
      by_cases hop : op = .drainOutput
      · subst hop
        have ha' : Armed { c with output := [] } := ⟨ha.sound, ha.awaits⟩
        obtain ⟨more, hmore, htold⟩ := ih (c := { c with output := [] }) ha' hopen hcalm.2
        exact ⟨more, congrArg (c.output ++ ·) hmore, htold⟩
      · rw [outputs, drained_eq_nil suite hop, List.nil_append]
        have hcalmed : Rises False c (after (perform suite op) c) ∨
            Closes c (after (perform suite op) c) := perform_calm ha hopen hop hcalm.1
        rcases hcalmed with hstep | hstep
        · obtain ⟨more, hmore, hrise⟩ := hstep.outputs
          obtain ⟨more', hmore', htold⟩ := ih (hstep.armed ha) (hstep.opened hopen) hcalm.2
          exact ⟨more ++ more', by rw [hmore', hmore, List.append_assoc], htold.after hrise⟩
        · have hrests : Rests (after (perform suite op) c) :=
            ⟨hstep.state, hstep.sound ha, hstep.silent⟩
          obtain ⟨hfinal, more', hmore', hhushed⟩ := outputs_rest hrests hcalm.2
          obtain ⟨before, s', code, hrise, hout⟩ := hstep.outputs
          refine ⟨before ++ .connectionStateChanged .closed :: .connectionClosed code :: more', ?_,
            .inr ⟨hfinal.state, before, s', code, more', hrise, rfl, hhushed⟩⟩
          rw [hmore', hout]
          simp only [List.append_assoc, List.cons_append, List.nil_append]

/-- A connection of a calm run is open, or closed with no timer. -/
theorem final_calm {ops : List Op} (hc : Armed c ∧ c.state ≠ .closed ∨ Rests c)
    (hcalm : CalmRun suite c ops) :
    Armed (final suite c ops) ∧ (final suite c ops).state ≠ .closed ∨
      Rests (final suite c ops) := by
  induction ops generalizing c with
  | nil => exact hc
  | cons op rest ih =>
      refine ih ?_ hcalm.2
      by_cases hop : op = .drainOutput
      · subst hop
        exact hc.imp (fun h => ⟨⟨h.1.sound, h.1.awaits⟩, h.2⟩) fun h => ⟨h.state, h.sound, h.silent⟩
      · rcases hc with ⟨ha, hopen⟩ | hrests
        · have hcalmed : Rises False c (after (perform suite op) c) ∨
              Closes c (after (perform suite op) c) := perform_calm ha hopen hop hcalm.1
          rcases hcalmed with hstep | hstep
          · exact .inl ⟨hstep.armed ha, hstep.opened hopen⟩
          · exact .inr ⟨hstep.state, hstep.sound ha, hstep.silent⟩
        · exact .inr (perform_rests hrests hop hcalm.1).1

theorem calmRun_append {ops ops' : List Op} (h : CalmRun suite c (ops ++ ops')) :
    CalmRun suite c ops := by
  induction ops generalizing c with
  | nil => trivial
  | cons op rest ih => exact ⟨h.1, ih h.2⟩

/-! ## A closed connection is quiet -/

/-- The output says that the connection has closed. -/
def CoreOutput.isClosed : CoreOutput → Bool
  | .connectionClosed _ => true
  | _ => false

/-- An open connection has not told of its end. -/
theorem Rise.untold {s s' : ConnectionState} {outs : List CoreOutput} (h : Rise False s outs s') :
    .connectionStateChanged .closed ∉ outs ∧ outs.countP CoreOutput.isClosed = 0 := by
  induction outs generalizing s with
  | nil => exact ⟨List.not_mem_nil, rfl⟩
  | cons out rest ih =>
      obtain ⟨hpermits, hrest⟩ := h
      obtain ⟨hmem, hcount⟩ := ih hrest
      have hout : out ≠ .connectionStateChanged .closed ∧ out.isClosed = false := by
        cases out with
        | connectionStateChanged t =>
            exact ⟨fun heq => hpermits.2 (CoreOutput.connectionStateChanged.inj heq), rfl⟩
        | connectionClosed code => exact hpermits.elim
        | _ => exact ⟨CoreOutput.noConfusion, rfl⟩
      refine ⟨fun hin => ?_, ?_⟩
      · rcases List.mem_cons.1 hin with heq | hin
        · exact hout.1 heq.symm
        · exact hmem hin
      · rw [List.countP_cons_of_neg (by simpa using hout.2), hcount]

theorem mem_of_append_cons {α : Type} {x y : α} {xs ys before rest : List α} (hx : x ∉ xs)
    (h : xs ++ x :: ys = before ++ x :: rest) (hy : y ∈ rest) : y ∈ ys := by
  induction xs generalizing before with
  | nil =>
      cases before with
      | nil =>
          obtain rfl := (List.cons.inj h).2
          exact hy
      | cons b bs =>
          rw [(List.cons.inj h).2]
          exact List.mem_append_right _ (List.mem_cons_of_mem _ hy)
  | cons a as ih =>
      cases before with
      | nil => exact absurd ((List.cons.inj h).1 ▸ List.mem_cons_self) hx
      | cons b bs => exact ih (fun hin => hx (List.mem_cons_of_mem _ hin)) (List.cons.inj h).2

/-- **Quiet.** Over every calm run nothing is sent once the connection has closed,
its end is told once, when it comes, and a closed connection has no deadline. -/
theorem closed_is_quiet (suite : Suite) (role : ConnectionRole) (config : ConnectionConfig)
    (c : Connection) (ops : List Op) (hfresh : Fresh suite role config c)
    (hcalm : CalmRun suite c ops) :
    (∀ before rest, outputs suite c ops = before ++ .connectionStateChanged .closed :: rest →
        ∀ p, .send p ∉ rest) ∧
      (outputs suite c ops).countP CoreOutput.isClosed =
        (if (final suite c ops).state = .closed then 1 else 0) ∧
      ∀ pre post, ops = pre ++ post → (final suite c pre).state = .closed →
        (final suite c pre).nextDeadline = .ok none := by
  obtain ⟨ha, hstart⟩ := fresh_rise hfresh
  have hopen : c.state ≠ .closed := hstart.opened (by cases role <;> exact nofun)
  obtain ⟨more, hmore, htold⟩ := outputs_told ha hopen hcalm
  have hall := htold.after hstart
  rw [← hmore] at hall
  refine ⟨fun before rest hsplit p hp => ?_, ?_, fun pre post hops hclosed => ?_⟩
  · rcases hall with ⟨_, s', hrise⟩ | ⟨_, before', s', code, rest', hrise, hout, hhushed⟩
    · exact hrise.untold.1 (hsplit ▸ List.mem_append_right _ List.mem_cons_self)
    · have hin := mem_of_append_cons hrise.untold.1 (hout.symm.trans hsplit) hp
      rcases List.mem_cons.1 hin with heq | hin
      · cases heq
      · cases List.all_eq_true.1 hhushed _ hin
  · rcases hall with ⟨hnot, s', hrise⟩ | ⟨hclosed, before', s', code, rest', hrise, hout, hhushed⟩
    · rw [if_neg hnot, hrise.untold.2]
    · have hrest : rest'.countP CoreOutput.isClosed = 0 := List.countP_eq_zero.2 fun o ho => by
        have := List.all_eq_true.1 hhushed o ho
        cases o <;> simp_all [CoreOutput.isHushed, CoreOutput.isClosed]
      rw [if_pos hclosed, hout, List.countP_append, hrise.untold.2,
        List.countP_cons_of_neg Bool.false_ne_true, List.countP_cons_of_pos rfl, hrest]
  · subst hops
    rcases final_calm (.inl ⟨ha, hopen⟩) (calmRun_append hcalm) with ⟨_, hnot⟩ | hrests
    · exact absurd hclosed hnot
    · exact nextDeadline_of_silent hrests.sound hrests.silent

/-- The client closes, the close timer goes off before the packet with the close is
sent again, and some time passes. -/
def quietRun : List Op :=
  [.close 0 [], .advanceTime 500000000, .drainOutput, .advanceTime 100000000]

theorem closed_is_quiet_sample : ∃ c, Fresh sampleSuite .client { closeTimeout := 500000000 } c ∧
    (final sampleSuite c quietRun).state = .closed ∧
    (outputs sampleSuite c quietRun).countP CoreOutput.isClosed = 1 ∧
    (final sampleSuite c quietRun).nextDeadline = .ok none := by
  obtain ⟨c, hc, hrun⟩ := of_checks (r := sampleConnection .client { closeTimeout := 500000000 })
    (p := fun c => decide (CalmRun sampleSuite c quietRun) &&
      decide ((final sampleSuite c quietRun).state = .closed)) (by decide +kernel)
  obtain ⟨hcalm, hstate⟩ := Bool.and_eq_true_iff.1 hrun
  have hfresh := sampleConnection_fresh hc
  have hclosed := of_decide_eq_true hstate
  obtain ⟨_, hcount, hdeadline⟩ := closed_is_quiet sampleSuite .client _ c quietRun hfresh
    (of_decide_eq_true hcalm)
  rw [if_pos hclosed] at hcount
  exact ⟨c, hfresh, hclosed, hcount, hdeadline quietRun [] (List.append_nil _).symm hclosed⟩

/-- **A closed connection that sends.** A client with the default configuration
closes and hears nothing for a second: the packet with the close is sent again
after the connection has closed, and its timer is running. -/
theorem closed_sends : ∃ c before rest p, Fresh sampleSuite .client {} c ∧
    (final sampleSuite c closingRun).state = .closed ∧
    outputs sampleSuite c closingRun = before ++ .connectionStateChanged .closed :: rest ∧
    .send p ∈ rest ∧ (final sampleSuite c closingRun).nextDeadline ≠ .ok none := by
  obtain ⟨c, hc, hrun⟩ := of_checks (r := sampleConnection .client {})
    (p := fun c => decide ((final sampleSuite c closingRun).state = .closed ∧
      ((outputs sampleSuite c closingRun).drop 3).head? = some (.connectionStateChanged .closed) ∧
      (packetsOf ((outputs sampleSuite c closingRun).drop 4)).length = 1 ∧
      (final sampleSuite c closingRun).nextDeadline.toOption = some (some 2000000000)))
    (by decide +kernel)
  obtain ⟨hstate, hclosed, hsent, hdeadline⟩ := of_decide_eq_true hrun
  obtain ⟨p, hp⟩ := List.length_eq_one_iff.1 hsent
  obtain ⟨rest, hrest⟩ := List.head?_eq_some_iff.1 hclosed
  have htail : (outputs sampleSuite c closingRun).drop 4 = rest := by
    rw [← List.tail_drop, hrest]
    rfl
  refine ⟨c, (outputs sampleSuite c closingRun).take 3, rest, p, sampleConnection_fresh hc, hstate,
    ?_, ?_, fun hnone => ?_⟩
  · rw [← hrest, List.take_append_drop]
  · have hin : p ∈ packetsOf rest := by rw [← htail, hp]; exact List.mem_singleton_self p
    obtain ⟨o, ho, hop⟩ := List.mem_filterMap.1 hin
    cases o <;> cases hop
    exact ho
  · rw [hnone] at hdeadline
    cases hdeadline

end DartUdp.Core
