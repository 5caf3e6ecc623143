import DartUdp.Proofs.ConnEdits
import DartUdp.Proofs.ConnTimers

/-!
# What a call of a connection can do to its state

The state of a connection only shows in the outputs that announce its changes,
so the outputs a call adds are read as the way the state took. Every function
of the source but the two that close a connection, and the one that gives up on
a packet, moves the state up and never to Closed; the way is the same whether
the function answers or fails. Along with it goes which timers can be pending:
a retransmission is of a packet that was numbered, and the close timer was set
by a close.

`Rises` is the invariant of a single call, with a lemma for each function up to
`close_rises`. It is read over a run for `lifecycle_rises`, and `Armed` is used
wherever a batch of timers is dealt with.
-/

namespace DartUdp.Core

open DartUdp.Lib DartUdp.Udp

variable {suite : Suite} {α β : Type} {F : Prop} {base : Nat} {c c' : Connection}

/-! ## The way of the state -/

/-- The order of the states. -/
def ConnectionState.rank : ConnectionState → Nat
  | .idle => 0
  | .handshaking => 1
  | .established => 2
  | .closing => 3
  | .closed => 4

/-- The state an output leaves. -/
def ConnectionState.next (s : ConnectionState) : CoreOutput → ConnectionState
  | .connectionStateChanged s' => s'
  | _ => s

/-- What may come out of a connection in the state; `F` is whether it may close. -/
def ConnectionState.Permits (F : Prop) (s : ConnectionState) : CoreOutput → Prop
  | .connectionStateChanged s' => s.rank < s'.rank ∧ (s' = .closed → F)
  | .connectionClosed _ => F
  | _ => True

/-- The outputs lead from one state up to the other. -/
def Rise (F : Prop) : ConnectionState → List CoreOutput → ConnectionState → Prop
  | s, [], s' => s' = s
  | s, out :: rest, s' => s.Permits F out ∧ Rise F (s.next out) rest s'

namespace Rise

variable {s s' s'' : ConnectionState} {outs outs' : List CoreOutput}

theorem append (h : Rise F s outs s') (h' : Rise F s' outs' s'') :
    Rise F s (outs ++ outs') s'' := by
  induction outs generalizing s with
  | nil => exact h ▸ h'
  | cons out rest ih => exact ⟨h.1, ih h.2⟩

theorem mono {G : Prop} (hFG : F → G) (h : Rise F s outs s') : Rise G s outs s' := by
  induction outs generalizing s with
  | nil => exact h
  | cons out rest ih =>
      refine ⟨?_, ih h.2⟩
      have hout := h.1
      cases out with
      | connectionStateChanged t => exact ⟨hout.1, fun ht => hFG (hout.2 ht)⟩
      | connectionClosed e => exact hFG hout
      | _ => trivial

theorem rank_next_le {out : CoreOutput} (h : s.Permits F out) : s.rank ≤ (s.next out).rank := by
  cases out with
  | connectionStateChanged t => exact h.1.le
  | _ => exact Nat.le_refl _

theorem rank_le (h : Rise F s outs s') : s.rank ≤ s'.rank := by
  induction outs generalizing s with
  | nil => exact h ▸ Nat.le_refl _
  | cons out rest ih => exact (rank_next_le h.1).trans (ih h.2)

/-- A connection that may not close stays open. -/
theorem opened (h : Rise False s outs s') (hs : s ≠ .closed) : s' ≠ .closed := by
  induction outs generalizing s with
  | nil => exact h ▸ hs
  | cons out rest ih =>
      refine ih h.2 ?_
      have hout := h.1
      cases out with
      | connectionStateChanged t => exact fun ht => hout.2 ht
      | _ => exact hs

end Rise

theorem ConnectionState.rank_le_closed (s : ConnectionState) :
    s.rank ≤ ConnectionState.closed.rank := by
  cases s <;> decide

theorem ConnectionState.rank_lt_closing {s : ConnectionState} (h : s ≠ .closed)
    (h' : s ≠ .closing) :
    s.rank < ConnectionState.closing.rank := by
  cases s <;> simp_all [rank]

theorem Connection.setState_state (c : Connection) (s : ConnectionState) :
    (c.setState s).state = s := by
  unfold setState
  split
  · rfl
  · next h => exact not_not.1 h

theorem Connection.setState_transport (c : Connection) (s : ConnectionState) :
    (c.setState s).transport = c.transport := by
  unfold setState
  split <;> rfl

/-! ## What may be pending -/

/-- The event is one that the timers of the connection may hold. -/
def Connection.Awaits (c : Connection) : TimerEvent → Prop
  | .retransmit packetNumber _ => packetNumber < c.transport.nextPacketNumber
  | .closeTimeout => ConnectionState.closing.rank ≤ c.state.rank
  | _ => True

/-- The timers hold only such events. -/
structure Armed (c : Connection) : Prop where
  sound : c.timers.Sound
  awaits : ∀ id event, c.timers.live id = some event → c.Awaits event

/-- A call that ends, well or not, has moved the state up, and the timers hold
what they may. -/
structure Rises (F : Prop) (c c' : Connection) : Prop where
  outputs : ∃ more, c'.output = c.output ++ more ∧ Rise F c.state more c'.state
  limit : c'.config.maxRetransmissions = c.config.maxRetransmissions
  next : c.transport.nextPacketNumber ≤ c'.transport.nextPacketNumber
  armed : Armed c → Armed c'

namespace Rises

theorem rank_le (h : Rises F c c') : c.state.rank ≤ c'.state.rank :=
  have ⟨_, _, hrise⟩ := h.outputs
  hrise.rank_le

theorem opened (h : Rises False c c') (hc : c.state ≠ .closed) : c'.state ≠ .closed :=
  have ⟨_, _, hrise⟩ := h.outputs
  hrise.opened hc

theorem mono {G : Prop} (hFG : F → G) (h : Rises F c c') : Rises G c c' := by
  obtain ⟨more, hmore, hrise⟩ := h.outputs
  exact ⟨⟨more, hmore, hrise.mono hFG⟩, h.limit, h.next, h.armed⟩

instance : IsPreorder Connection (Rises F) where
  refl _ := ⟨⟨[], (List.append_nil _).symm, rfl⟩, rfl, Nat.le_refl _, id⟩
  trans _ _ _ h h' :=
    have ⟨more, hmore, hrise⟩ := h.outputs
    have ⟨more', hmore', hrise'⟩ := h'.outputs
    ⟨⟨more ++ more', by rw [hmore', hmore, List.append_assoc], hrise.append hrise'⟩,
      h'.limit.trans h.limit, h.next.trans h'.next, fun ha => h'.armed (h.armed ha)⟩

theorem trans {c'' : Connection} (h : Rises F c c') (h' : Rises F c' c'') : Rises F c c'' :=
  IsTrans.trans c c' c'' h h'

/-- The timers after a step that moved the state up. -/
theorem arm (hrank : c.state.rank ≤ c'.state.rank)
    (hnext : c.transport.nextPacketNumber ≤ c'.transport.nextPacketNumber)
    (htimers : Adds c'.Awaits c.timers c'.timers) (h : Armed c) : Armed c' := by
  obtain ⟨hsound, hadds⟩ := htimers h.sound
  refine ⟨hsound, fun id event hlive => (hadds id event hlive).elim (fun h => h) fun hold => ?_⟩
  have hawaits := h.awaits id event hold
  cases event with
  | retransmit n g => exact hawaits.trans_le hnext
  | closeTimeout => exact hawaits.trans hrank
  | _ => trivial

/-- Nothing comes out and the state stays. -/
theorem mute (hout : c'.output = c.output) (hstate : c'.state = c.state)
    (hlimit : c'.config.maxRetransmissions = c.config.maxRetransmissions)
    (hnext : c.transport.nextPacketNumber ≤ c'.transport.nextPacketNumber)
    (htimers : Adds c'.Awaits c.timers c'.timers) : Rises F c c' :=
  ⟨⟨[], by rw [hout, List.append_nil], hstate⟩, hlimit, hnext,
    arm (congrArg ConnectionState.rank hstate).ge hnext htimers⟩

theorem emit {o : CoreOutput} (ho : c.state.Permits F o)
    (hstate : c.state.next o = c.state) : Rises F c (c.emit o) :=
  ⟨⟨[o], rfl, ho, hstate.symm⟩, rfl, Nat.le_refl _,
    arm (Nat.le_refl _) (Nat.le_refl _) (.of_wheel rfl)⟩

theorem setState {s : ConnectionState}
    (h : c.state ≠ s → c.state.rank < s.rank ∧ (s = .closed → F)) :
    Rises F c (c.setState s) := by
  unfold Connection.setState
  split
  · next hne =>
      exact ⟨⟨[.connectionStateChanged s], rfl, h hne, rfl⟩, rfl, Nat.le_refl _,
        arm (h hne).1.le (Nat.le_refl _) (.of_wheel rfl)⟩
  · exact Std.Refl.refl c

end Rises

/-- Nothing comes out, and nothing changes that the state or the timers depend on. -/
structure Still (c c' : Connection) : Prop where
  output : c'.output = c.output
  state : c'.state = c.state
  limit : c'.config.maxRetransmissions = c.config.maxRetransmissions
  next : c'.transport.nextPacketNumber = c.transport.nextPacketNumber
  timers : c'.timers = c.timers
  sent : c'.transport.sent = c.transport.sent

instance : IsPreorder Connection Still where
  refl _ := ⟨rfl, rfl, rfl, rfl, rfl, rfl⟩
  trans _ _ _ h h' := ⟨h'.output.trans h.output, h'.state.trans h.state, h'.limit.trans h.limit,
    h'.next.trans h.next, h'.timers.trans h.timers, h'.sent.trans h.sent⟩

theorem Still.rises (h : Still c c') : Rises F c c' :=
  .mute h.output h.state h.limit h.next.ge (.of_wheel (congrArg TimerState.wheel h.timers))

/-- What leaves everything alone moves nothing. -/
theorem rises_of_still {m : ConnM α} (h : Within Still m c) : Within (Rises F) m c :=
  h.mono fun _ => Still.rises

/-! ## Calls on the parts -/

theorem onTimers_ends {m : TimerM α} (h : Within (Adds c.Awaits) m c.timers) :
    Ends (onTimers m) c (fun _ c' => Rises F c c' ∧ ∃ t, c' = { c with timers := t })
      fun _ c' => Rises F c c' :=
  ends_zoom.2 (Ends.mono h (fun _ t ht => ⟨.mute rfl rfl rfl (Nat.le_refl _) ht, t, rfl⟩)
    fun _ _ ht => .mute rfl rfl rfl (Nat.le_refl _) ht)

theorem onTimers_rises {m : TimerM α} (h : Within (Adds c.Awaits) m c.timers) :
    Within (Rises F) (onTimers m) c :=
  (onTimers_ends h).mono (fun _ _ h => h.1) fun _ _ h => h

theorem onStreams_still (m : StreamsM α) : Within Still (onStreams m) c :=
  ends_onStreams.2 (.of_forall (fun _ _ => ⟨rfl, rfl, rfl, rfl, rfl, rfl⟩)
    fun _ _ => ⟨rfl, rfl, rfl, rfl, rfl, rfl⟩)

theorem modifyTransport_still {f : TransportState → TransportState}
    (hnext : (f c.transport).nextPacketNumber = c.transport.nextPacketNumber)
    (hsent : (f c.transport).sent = c.transport.sent) : Within Still (modifyTransport f) c :=
  Still.mk rfl rfl rfl hnext rfl hsent

theorem modifyHandshake_still (f : HandshakeState → HandshakeState) :
    Within Still (modifyHandshake f) c := Still.mk rfl rfl rfl rfl rfl rfl

theorem emit_rises {o : CoreOutput} (ho : ∀ s : ConnectionState, s.Permits F o ∧ s.next o = s) :
    Within (Rises F) (modify (·.emit o) : ConnM Unit) c := Rises.emit (ho _).1 (ho _).2

theorem ensureEstablished_still (operation : String) :
    Within Still (ensureEstablished operation) c :=
  .get_bind (.ite (fun _ => .throw _) fun _ => .pure _)

/-! ## Acknowledgements and loss -/

theorem scheduleAck_rises : Within (Rises F) scheduleAck c :=
  (rises_of_still (modifyTransport_still rfl rfl)).bind fun _ _ => .get_bind <|
    .ite (fun _ => rises_of_still (modifyTransport_still rfl rfl)) fun _ =>
      .ite (fun _ => onTimers_rises (Adds.scheduleAckTimer trivial _)) fun _ => .pure _

theorem putBack_still (frame : Frame) (count : Nat) : Within Still (putBack frame count) c := by
  unfold putBack
  split
  · exact onStreams_still _
  · exact modifyTransport_still rfl rfl

theorem putBackAll_still (count : Nat) (frames : List QueuedFrame) :
    Within Still (putBackAll count frames) c := by
  induction frames generalizing c with
  | nil => exact .pure _
  | cons queued rest ih => exact (putBack_still queued.frame count).bind fun _ _ => ih

theorem requeueLost_still (frames : List QueuedFrame) (count : Nat) :
    Within Still (requeueLost frames count) c :=
  .get_bind (.ite (fun _ => Within.bind (.throw _) fun _ _ => putBackAll_still _ _)
    fun _ => putBackAll_still _ _)

theorem removeAcked_rises (numbers : List Nat) (sample : Option Nat) :
    Within (Rises F) (removeAcked numbers sample) c := by
  induction numbers generalizing c sample with
  | nil => exact .pure _
  | cons n rest ih =>
      refine .get_bind ?_
      cases c.transport.sent[n]? with
      | none => exact ih _
      | some packet =>
          exact .modify_bind (.mute rfl rfl rfl (Nat.le_refl _) (.cancel packet.timerId)) (ih _)

theorem removeLost_rises (numbers : List Nat) : Within (Rises F) (removeLost numbers) c := by
  induction numbers generalizing c with
  | nil => exact .pure _
  | cons n rest ih =>
      refine .get_bind ?_
      cases c.transport.sent[n]? with
      | none => exact ih
      | some packet =>
          exact .modify_bind (.mute rfl rfl rfl (Nat.le_refl _) (.cancel packet.timerId))
            ((rises_of_still (requeueLost_still _ _)).bind fun _ _ => ih)

theorem applyAck_rises (ack : AckFrame) : Within (Rises F) (applyAck ack) c := by
  refine (Within.ofExcept _ _).bind fun _ c₁ => .get_bind ?_
  refine .ite (fun _ => Within.bind (.throw _) fun _ _ => ?_) fun _ => ?_
  all_goals
    refine (removeAcked_rises _ _).bind fun sample _ => ?_
    cases sample with
    | none => exact .get_bind (removeLost_rises _)
    | some sample =>
        exact (rises_of_still (modifyTransport_still rfl rfl)).bind fun _ _ =>
          .get_bind (removeLost_rises _)

theorem processRetransmit_rises (packetNumber generation : Nat) :
    Within (Rises F) (processRetransmit packetNumber generation) c := by
  refine .get_bind ?_
  cases c.transport.sent[packetNumber]? with
  | none => exact .pure _
  | some packet =>
      exact .ite (fun _ => .pure _) fun _ =>
        .modify_bind (.mute rfl rfl rfl (Nat.le_refl _) (.of_wheel rfl))
          (rises_of_still (requeueLost_still _ _))

/-- Giving up on a packet moves an open connection to Closing. -/
theorem closeOnLimit_rises {m : ConnM α} (hm : ∀ F, Within (Rises F) m c)
    (hopen : c.state ≠ .closed) : Within (Rises F) (closeOnLimit m) c := by
  simp only [closeOnLimit, Within, ends_tryCatch]
  refine Ends.mono (hm False) (fun _ _ h => h.mono False.elim) fun e c₁ h => ?_
  simp only [ends_steps]
  refine ⟨fun _ => (h.mono False.elim).trans ?_, fun _ => h.mono False.elim⟩
  have hclosing : Rises F { c₁ with closeError := some 3 }
      ({ c₁ with closeError := some 3 }.setState .closing) := Rises.setState fun hne =>
    ⟨ConnectionState.rank_lt_closing (h.opened hopen) hne, fun h => by cases h⟩
  have hnoted : Rises F c₁ { c₁ with closeError := some 3 } :=
    Still.rises ⟨rfl, rfl, rfl, rfl, rfl, rfl⟩
  exact hnoted.trans hclosing

theorem applyAcks_rises (frames : List Frame) (hopen : c.state ≠ .closed) :
    Within (Rises False) (applyAcks frames) c := by
  induction frames generalizing c with
  | nil => exact .pure _
  | cons f rest ih =>
      cases f with
      | ack a =>
          rw [applyAcks, Within, ends_bind]
          refine Ends.mono (closeOnLimit_rises (fun _ => applyAck_rises a) hopen)
            (fun _ c₁ h => Within.trans h (ih (h.opened hopen))) fun _ _ h => h
      | _ => exact ih hopen

/-! ## Flushing -/

theorem takeCandidate_still : Within Still takeCandidate c := by
  refine .get_bind (.ite (fun _ => (Within.ofExcept _ _).bind fun _ _ => .pure _) fun _ => ?_)
  refine Within.bind (.get_bind ?_) fun _ _ => .pure _
  split
  · exact (modifyTransport_still rfl rfl).bind fun _ _ => .pure _
  · split
    · exact .modify_bind ⟨rfl, rfl, rfl, rfl, rfl, rfl⟩ (.pure _)
    · exact .pure _

theorem requeueCandidate_still (candidate : Candidate) :
    Within Still (requeueCandidate candidate) c := by
  cases candidate with
  | ack a => exact .pure _
  | frame queued => exact putBack_still _ _

theorem flowBlocks_still (candidate : Candidate) : Within Still (flowBlocks candidate) c := by
  unfold flowBlocks
  split
  · refine .get_bind (.ite (fun _ => .pure _) fun _ => .ite (fun _ => ?_) fun _ => .pure _)
    exact .modify_bind ⟨rfl, rfl, rfl, rfl, rfl, rfl⟩ (.pure _)
  · exact .pure _

/-- The state moves up, and the packets numbered before `base` stay as they are. -/
structure Grows (F : Prop) (base : Nat) (c c' : Connection) : Prop extends Rises F c c' where
  kept : ∀ n < base, c'.transport.sent[n]? = c.transport.sent[n]?

instance : IsPreorder Connection (Grows F base) where
  refl c := ⟨Std.Refl.refl c, fun _ _ => rfl⟩
  trans _ _ _ h h' :=
    ⟨h.toRises.trans h'.toRises, fun n hn => (h'.kept n hn).trans (h.kept n hn)⟩

theorem Grows.trans {c'' : Connection} (h : Grows F base c c') (h' : Grows F base c' c'') :
    Grows F base c c'' := IsTrans.trans c c' c'' h h'

theorem Rises.grows (h : Rises F c c') (hsent : c'.transport.sent = c.transport.sent) :
    Grows F base c c' := ⟨h, fun _ _ => by rw [hsent]⟩

theorem Still.grows (h : Still c c') : Grows F base c c' := h.rises.grows h.sent

theorem grows_of_still {m : ConnM α} (h : Within Still m c) : Within (Grows F base) m c :=
  h.mono fun _ => Still.grows

theorem onTimers_grows {m : TimerM α} (h : Within (Adds c.Awaits) m c.timers) :
    Within (Grows F base) (onTimers m) c :=
  h.zoom fun _ ht => ⟨.mute rfl rfl rfl (Nat.le_refl _) ht, fun _ _ => rfl⟩

theorem recordSent_grows {n len : Nat} (queued : QueuedFrame) (hbase : base ≤ n)
    (hn : n < c.transport.nextPacketNumber) :
    Within (Grows F base) (recordSent n len queued) c := by
  unfold recordSent
  split
  · exact .pure _
  · exact .pure _
  · exact .pure _
  · refine .modify_bind (Still.grows ⟨rfl, rfl, rfl, rfl, rfl, rfl⟩) (.get_bind
      ((onTimers_grows (Adds.schedule hn _)).bind fun timerId c₁ => Within.modify ⟨?_, ?_⟩))
    · exact .mute rfl rfl rfl (Nat.le_refl _) (.of_wheel rfl)
    · intro m hm
      refine Std.TreeMap.getElem?_insert.trans (if_neg fun heq => ?_)
      have := Std.compare_eq_iff_eq.1 heq
      omega

theorem settle_grows {n len : Nat} (candidate : Candidate) (hbase : base ≤ n)
    (hn : n < c.transport.nextPacketNumber) :
    Within (Grows F base) (settle n len candidate) c := by
  cases candidate with
  | ack a => exact Rises.grows (.mute rfl rfl rfl (Nat.le_refl _) .cancelAck) rfl
  | frame queued =>
      exact .ite (fun _ => (recordSent_grows queued hbase hn).bind fun _ _ =>
        grows_of_still (modifyTransport_still rfl rfl)) fun _ => .pure _

theorem flushOnce_grows (hbase : base ≤ c.transport.nextPacketNumber) :
    Within (Grows F base) flushOnce c := by
  refine .bind_of (P := fun c' => base ≤ c'.transport.nextPacketNumber)
    (Ends.mono takeCandidate_still (fun _ _ h => ⟨h.grows, h.next ▸ hbase⟩) fun _ _ h => h.grows)
    fun r c₁ _ hbase => ?_
  cases r with
  | none => exact .pure _
  | some candidate =>
      refine .get_bind (.ofExcept_bind fun len _ => .ite (fun _ => ?_) fun _ => ?_)
      · exact (grows_of_still (requeueCandidate_still candidate)).bind fun _ _ => .pure _
      · split
        · exact .throw _
        · next next hnext =>
            obtain ⟨_, rfl⟩ := checkedAdd_eq_some.1 hnext
            rw [Within, ends_bind, ends_modifyTransport, ends_bind]
            have htaken : Grows F base c₁ { c₁ with transport :=
                { c₁.transport with nextPacketNumber := c₁.transport.nextPacketNumber + 1 } } :=
              Rises.grows (.mute rfl rfl rfl (Nat.le_succ _) (.of_wheel rfl)) rfl
            refine Ends.mono (flowBlocks_still candidate) (fun blocked c₂ h₂ => ?_)
              fun _ _ h₂ => htaken.trans h₂.grows
            rw [ends_ite]
            refine ⟨fun _ => ?_, fun _ => ?_⟩
            · -- A frame that has to wait gives its number back.
              rw [ends_bind]
              refine Ends.mono (requeueCandidate_still candidate) (fun _ c₃ h₃ => ?_)
                fun _ _ h₃ => htaken.trans (h₂.grows.trans h₃.grows)
              have hstill := IsTrans.trans _ _ _ h₂ h₃
              refine Still.grows ⟨hstill.output, hstill.state, hstill.limit, ?_, hstill.timers,
                hstill.sent⟩
              show c₃.transport.nextPacketNumber - 1 = c₁.transport.nextPacketNumber
              rw [hstill.next]
              rfl
            · have hnumber : c₁.transport.nextPacketNumber < c₂.transport.nextPacketNumber := by
                rw [h₂.next]
                exact Nat.lt_succ_self _
              refine Within.trans (htaken.trans h₂.grows) ?_
              have hsent : Rises F c₂ (c₂.emit (.send (c₁.packetFor candidate))) :=
                .emit trivial rfl
              exact .modify_bind (hsent.grows rfl)
                ((settle_grows (c := c₂.emit _) candidate hbase hnumber).bind fun _ _ => .pure _)

theorem flushLoop_grows (fuel : Nat) (hbase : base ≤ c.transport.nextPacketNumber) :
    Within (Grows F base) (flushLoop fuel) c := by
  induction fuel generalizing c with
  | zero => exact .pure _
  | succ fuel ih =>
      refine .bind_of (P := fun c' => base ≤ c'.transport.nextPacketNumber)
        (Ends.mono (flushOnce_grows hbase) (fun _ _ h => ⟨h, hbase.trans h.next⟩) fun _ _ h => h)
        fun _ _ _ hbase => .ite (fun _ => ih hbase) fun _ => .pure _

theorem flush_grows (hbase : base ≤ c.transport.nextPacketNumber) :
    Within (Grows F base) flush c := flushLoop_grows _ hbase

theorem flush_rises : Within (Rises F) flush c :=
  (flush_grows (Nat.le_refl _)).mono fun _ => Grows.toRises

/-! ## The handshake -/

theorem activateCrypto_still : Within Still activateCrypto c := by
  refine .get_bind (.ite (fun _ => .pure _) fun _ => ?_)
  split
  · exact .throw _
  · exact Within.modify ⟨rfl, rfl, rfl, rfl, rfl, rfl⟩

theorem startClient_rises : Within (Rises F) (startClient suite) c :=
  .get_bind ((rises_of_still (modifyHandshake_still _)).bind fun _ _ =>
    .modify_bind (Still.rises ⟨rfl, rfl, rfl, rfl, rfl, rfl⟩)
      ((rises_of_still (modifyHandshake_still _)).bind fun _ _ =>
        onTimers_rises (Adds.scheduleHandshake trivial _)))

/-- A `ClientHello` changes the state of an idle server only. -/
theorem receiveClientHello_still (packetType : PacketType) (hello : ClientHello) :
    Ends (receiveClientHello suite packetType hello) c
      (fun r c' => Still c c' ∧ ∀ st, r.2.1 = some st → st = .handshaking ∧ c.state = .idle)
      fun _ c' => Still c c' := by
  have hnext : ∀ st, (if c.state = .idle then some ConnectionState.handshaking else none) =
      some st → st = .handshaking ∧ c.state = .idle := fun st hst => by
    split at hst
    · next hidle => exact ⟨(Option.some.inj hst).symm, hidle⟩
    · cases hst
  have hstill : ∀ {h : HandshakeState} {conf : ConnectionConfig},
      conf.maxRetransmissions = c.config.maxRetransmissions →
      Still c { c with handshake := h, config := conf } :=
    fun hlimit => ⟨rfl, rfl, hlimit, rfl, rfl, rfl⟩
  simp only [receiveClientHello, ends_steps, ends_modifyHandshake, ends_ofExcept]
  refine ⟨fun _ => Std.Refl.refl c, fun _ => ⟨fun _ => Std.Refl.refl c, fun _ => ⟨fun _ => ?_,
    fun _ => ?_⟩⟩⟩
  · exact ⟨fun _ _ => ⟨fun _ _ => ⟨hstill rfl, hnext⟩, fun _ _ => hstill rfl⟩,
      fun _ _ => hstill rfl⟩
  · exact ⟨fun _ _ => ⟨fun _ _ => ⟨hstill rfl, hnext⟩, fun _ _ => hstill rfl⟩,
      fun _ _ => hstill rfl⟩

theorem processClientHello_rises (packetType : PacketType) (hello : ClientHello) :
    Within (Rises F) (processClientHello suite packetType hello) c := by
  rw [processClientHello, Within, ends_bind]
  refine (receiveClientHello_still packetType hello).mono (fun r c₁ h₁ => ?_) fun _ _ h => h.rises
  obtain ⟨frame, nextState, maxOffset⟩ := r
  obtain ⟨h₁, hnext⟩ := h₁
  have henter : ∀ c₂, Still c c₂ → Within (Rises F) (enterState nextState) c₂ := fun c₂ h₂ => by
    cases nextState with
    | none => exact .pure _
    | some st =>
        obtain ⟨rfl, hidle⟩ := hnext st rfl
        refine .get_bind (.bind_of (onTimers_ends (Adds.scheduleHandshake trivial _))
          fun _ c₃ _ htimers => Rises.setState fun _ => ?_)
        obtain ⟨t, rfl⟩ := htimers
        rw [show ({ c₂ with timers := t } : Connection).state = .idle from h₂.state.trans hidle]
        exact ⟨by decide, fun h => by cases h⟩
  have hqueued : Still c { c₁ with
      connectionSend := c₁.connectionSend.learn maxOffset
      handshake := { c₁.handshake with frame := some frame }
      transport := c₁.transport.queue frame } :=
    ⟨h₁.output, h₁.state, h₁.limit, h₁.next, h₁.timers, h₁.sent⟩
  simp only [ends_steps, ends_modifyHandshake]
  refine ⟨fun _ => ?_, fun _ => Within.trans hqueued.rises (henter _ hqueued)⟩
  refine Ends.mono activateCrypto_still (fun _ c₂ h₂ => ?_) fun _ _ h₂ =>
    hqueued.rises.trans h₂.rises
  have hstill : Still c c₂ := IsTrans.trans c _ c₂ hqueued h₂
  exact Within.trans hstill.rises (henter c₂ hstill)

/-- A connection in its handshake becomes Established. -/
theorem Rises.establish (h : Rises F c c') (hstate : c'.state = .handshaking) :
    Rises F c (c'.setState .established) := by
  refine h.trans (.setState fun _ => ?_)
  rw [hstate]
  exact ⟨by decide, fun h => by cases h⟩

theorem processServerHello_rises (packetType : PacketType) (hello : ServerHello) :
    Within (Rises F) (processServerHello suite packetType hello) c := by
  have hstill : ∀ {h : HandshakeState} {conf : ConnectionConfig},
      conf.maxRetransmissions = c.config.maxRetransmissions →
      Rises F c { c with handshake := h, config := conf } := fun hlimit =>
    Still.rises ⟨rfl, rfl, hlimit, rfl, rfl, rfl⟩
  simp only [processServerHello, receiveServerHello, Within, ends_steps, ends_modifyHandshake]
  refine ⟨fun _ => Std.Refl.refl c, fun hguard => ?_⟩
  have hstate : c.state = .handshaking := by
    by_contra hne
    exact hguard (by simp [hne])
  split
  · exact hstill rfl
  · simp only [ends_bind, ends_ofExcept, ends_modifyHandshake, ends_pure]
    refine ⟨fun _ _ => ⟨fun _ _ => ⟨fun _ _ => ?_, fun _ _ => hstill rfl⟩,
      fun _ _ => hstill rfl⟩, fun _ _ => hstill rfl⟩
    exact Within.trans (.establish (.mute rfl rfl rfl (Nat.le_refl _) .cancelHandshake) hstate)
      (rises_of_still activateCrypto_still)

theorem processHandshakeAck_rises (packetType : PacketType) (ack : HandshakeAck) :
    Within (Rises F) (processHandshakeAck suite packetType ack) c := by
  simp only [processHandshakeAck, receiveHandshakeAck, Within, ends_steps]
  refine ⟨fun _ => Std.Refl.refl c, fun hguard => ?_⟩
  have hstate : c.state = .handshaking := by
    by_contra hne
    exact hguard (by simp [hne])
  split
  · exact Std.Refl.refl c
  · split
    · exact Std.Refl.refl c
    · simp only [ends_bind, ends_ofExcept, ends_modify]
      refine ⟨fun _ _ => ?_, fun _ _ => Std.Refl.refl c⟩
      exact Within.trans (.establish (.mute rfl rfl rfl (Nat.le_refl _) .cancelHandshake) hstate)
        (rises_of_still activateCrypto_still)

theorem processRetry_rises (packetType : PacketType) (cookie : Bytes) :
    Within (Rises F) (processRetry suite packetType cookie) c := by
  simp only [processRetry, receiveRetry, Within, ends_steps, ends_modifyHandshake]
  refine ⟨fun _ => Std.Refl.refl c, fun _ => ⟨fun _ => Std.Refl.refl c, fun _ => ?_⟩⟩
  exact Within.trans (Still.rises ⟨rfl, rfl, rfl, rfl, rfl, rfl⟩)
    (onTimers_rises (Adds.scheduleHandshake trivial _))

/-! ## Frames and packets received -/

theorem ensureData_still (packetType : PacketType) : Within Still (ensureData packetType) c :=
  ends_ensureData.2 ⟨fun _ => Std.Refl.refl c, fun _ => Std.Refl.refl c⟩

theorem processStreamOpen_rises (packetType : PacketType) (frame : StreamOpen) :
    Within (Rises F) (processStreamOpen packetType frame) c := by
  have hinserted : ∀ c₁ c' : Connection, Within (Rises F) (do
      onStreams (insertStream frame.streamId frame.bidirectional frame.initialReceiveWindow
        c₁.role.peerStreamParity c₁.config.initialStreamWindow)
      modify (·.emit (.streamOpened frame.streamId))) c' := fun _ _ =>
    (rises_of_still (onStreams_still _)).bind fun _ _ => emit_rises fun _ => ⟨trivial, rfl⟩
  refine (rises_of_still (ensureData_still packetType)).bind fun _ c₁ => .get_bind ?_
  refine .ite (fun _ => Within.bind (.throw _) fun _ _ => ?_) fun _ => ?_
  all_goals
    split
    · exact .ite (fun _ => .throw _) fun _ => .pure _
    · exact .ite (fun _ => Within.bind (.throw _) fun _ _ => hinserted _ _)
        fun _ => hinserted _ _

theorem processStreamData_rises (packetType : PacketType) (data : StreamData) :
    Within (Rises F) (processStreamData packetType data) c := by
  refine (rises_of_still (ensureData_still packetType)).bind fun _ c₁ => .get_bind ?_
  refine (rises_of_still (onStreams_still _)).bind fun newBytes _ => ?_
  split
  · exact .throw _
  · refine (Within.ofExcept _ _).bind fun _ _ => (rises_of_still (onStreams_still _)).bind
      fun status _ => (Within.ofExcept _ _).bind fun _ _ =>
        .modify_bind (Still.rises ⟨rfl, rfl, rfl, rfl, rfl, rfl⟩) ?_
    have hfinished : ∀ c', Within (Rises F) (do
        if status.finished && !status.readable then
          modify fun c => { c with streams := c.streams.finish data.streamId }
          modify (·.emit (.streamFinished data.streamId))) c' := fun _ =>
      .ite (fun _ => .modify_bind (Still.rises ⟨rfl, rfl, rfl, rfl, rfl, rfl⟩)
        (emit_rises fun _ => ⟨trivial, rfl⟩)) fun _ => .pure _
    have hreadable : ∀ c', Within (Rises F) (do
        if status.readable then modify (·.emit (.streamReadable data.streamId))
        if status.finished && !status.readable then
          modify fun c => { c with streams := c.streams.finish data.streamId }
          modify (·.emit (.streamFinished data.streamId))) c' := fun _ =>
      .ite (fun _ => (emit_rises (o := .streamReadable _) fun _ => ⟨trivial, rfl⟩).bind fun _ _ =>
        hfinished _)
        fun _ => hfinished _
    exact .ite (fun _ => Within.bind (.throw _) fun _ _ => hreadable _) fun _ => hreadable _

theorem processResetStream_rises (packetType : PacketType) (reset : ResetStream) :
    Within (Rises F) (processResetStream packetType reset) c :=
  (rises_of_still (ensureData_still packetType)).bind fun _ _ =>
    (rises_of_still (onStreams_still _)).bind fun _ _ => emit_rises fun _ => ⟨trivial, rfl⟩

/-- The connection closes and says so, with no timer left. -/
theorem Rises.close (hF : F) (e : Option Nat) (code : Nat) :
    Rises F c (({ c with closeError := e, timers := c.timers.cancelAll }.setState .closed).emit
      (.connectionClosed code)) := by
  have hcancelled : Rises F c { c with closeError := e, timers := c.timers.cancelAll } :=
    .mute rfl rfl rfl (Nat.le_refl _) .cancelAll
  refine hcancelled.trans (Rises.trans (.setState fun hne => ⟨?_, fun _ => hF⟩)
    (.emit (o := .connectionClosed code) hF rfl))
  exact lt_of_le_of_ne (ConnectionState.rank_le_closed _) fun hrank => hne (by
    revert hrank
    cases Connection.state _ <;> decide)

theorem processConnectionClose_rises (packetType : PacketType) (frame : ConnectionClose)
    (hF : packetType = .close → F) :
    Within (Rises F) (processConnectionClose packetType frame) c := by
  simp only [processConnectionClose, Within, ends_steps]
  exact ⟨fun _ => Std.Refl.refl c, fun htype => .close (hF (not_not.1 htype)) _ _⟩

/-- Only a close in a packet of its own type closes the connection. -/
theorem processFrame_rises (packetType : PacketType) (f : Frame)
    (hF : packetType = .close → F) : Within (Rises F) (processFrame suite packetType f) c := by
  cases f with
  | clientHello hello => exact processClientHello_rises packetType hello
  | serverHello hello => exact processServerHello_rises packetType hello
  | handshakeAck ack => exact processHandshakeAck_rises packetType ack
  | retry cookie => exact processRetry_rises packetType cookie
  | streamOpen frame => exact processStreamOpen_rises packetType frame
  | streamData data => exact processStreamData_rises packetType data
  | resetStream reset => exact processResetStream_rises packetType reset
  | maxStreamData update =>
      exact rises_of_still ((ensureData_still packetType).bind fun _ _ => onStreams_still _)
  | maxData maxOffset =>
      exact rises_of_still ((ensureData_still packetType).bind fun _ _ =>
        Within.modify ⟨rfl, rfl, rfl, rfl, rfl, rfl⟩)
  | ping nonce =>
      exact rises_of_still ((ensureData_still packetType).bind fun _ _ =>
        Within.modify ⟨rfl, rfl, rfl, rfl, rfl, rfl⟩)
  | pong nonce => exact .pure _
  | connectionClose frame => exact processConnectionClose_rises packetType frame hF
  | ack a => exact .pure _

theorem processFrames_rises (packetType : PacketType) (frames : List Frame)
    (hF : packetType = .close → F) :
    Within (Rises F) (processFrames suite packetType frames) c := by
  induction frames generalizing c with
  | nil => exact .pure _
  | cons f rest ih =>
      exact .ite (fun _ => (processFrame_rises packetType f hF).bind fun _ _ => ih) fun _ => ih

theorem recordReceived_still (p : Packet) : Within Still (recordReceived p) c :=
  .ite (fun _ => .pure _) fun _ =>
    .get_bind ((modifyTransport_still rfl rfl).bind fun _ _ => .pure _)

/-- The number of the packet has not been received yet. -/
def Connection.isNew (c : Connection) (p : Packet) : Bool :=
  (c.transport.received.record p.packetNumber c.now).1

theorem recordReceived_ends (p : Packet) :
    Ends (recordReceived p) c (fun r _ => p.packetType = .retry ∨ r = c.isNew p) fun _ _ =>
    True := by
  simp only [recordReceived, ends_steps, ends_modifyTransport]
  exact ⟨fun hretry => .inl hretry, fun _ => .inr rfl⟩

/-- What a datagram does to the state is what its frames do, and they are handled
only on an open connection, in a packet of its own that is new. -/
theorem onDatagram_ends (p : Packet) {E : Connection → Prop} (hE : ∀ c', Rises F c c' → E c')
    (hframes : c.state ≠ .closed → p.connectionId = c.id → p.packetType = .retry ∨
      c.isNew p = true →
      ∀ c', Rises False c c' → Ends (processFrames suite p.packetType p.frames) c'
        (fun _ c'' => Rises F c c'') fun _ c'' => E c'') :
    Ends (onDatagram suite p) c (fun _ c' => Rises F c c') fun _ c' => E c' := by
  simp only [onDatagram, ends_steps]
  refine ⟨fun _ => hE _ (Std.Refl.refl c), fun hopen =>
    ⟨fun _ => hE _ (Std.Refl.refl c), fun hid => ?_⟩⟩
  refine (onTimers_ends (F := False) (Adds.scheduleIdle trivial _)).mono
    (fun _ c₁ h₁ => ?_) fun _ _ h₁ => hE _ (h₁.mono False.elim)
  obtain ⟨h₁, t, rfl⟩ := h₁
  refine (Ends.and (recordReceived_still p) (recordReceived_ends p)).mono (fun isNew c₂ h₂ => ?_)
    fun _ _ h₂ => hE _ ((h₁.trans h₂.1.rises).mono False.elim)
  obtain ⟨hstill, hnew⟩ := h₂
  have h₂ : Rises False c c₂ := h₁.trans hstill.rises
  refine Ends.mono (applyAcks_rises p.frames (h₂.opened hopen)) (fun _ c₃ h₃ => ?_)
    fun _ _ h₃ => hE _ ((h₂.trans h₃).mono False.elim)
  have hanswered : ∀ c', Rises F c c' →
      (p.frames.any Frame.isAckEliciting = true →
        Ends scheduleAck c' (fun _ c'' => Ends flush c'' (fun _ c'' => Rises F c c'')
          fun _ c'' => E c'') fun _ c'' => E c'') ∧
      (¬p.frames.any Frame.isAckEliciting = true →
        Ends flush c' (fun _ c'' => Rises F c c'') fun _ c'' => E c'') := fun c' h' =>
    ⟨fun _ => (ends_bind.1 (Within.trans h' (scheduleAck_rises.bind fun _ _ => flush_rises))).mono
      (fun _ _ h => h.mono (fun _ _ h => h) fun _ _ => hE _) fun _ _ => hE _,
      fun _ => Ends.mono (Within.trans h' flush_rises) (fun _ _ h => h) fun _ _ => hE _⟩
  refine ⟨fun htrue => ?_, fun _ => hanswered c₃ ((h₂.trans h₃).mono False.elim)⟩
  have hnew : p.packetType = .retry ∨ c.isNew p = true := hnew.imp_right fun h => h.symm.trans htrue
  exact (hframes hopen (not_not.1 hid) hnew c₃ (h₂.trans h₃)).mono (fun _ c₅ h₅ => hanswered c₅ h₅)
    fun _ _ h₅ => h₅

/-- A datagram closes the connection only when its packet is of type Close. -/
theorem onDatagram_rises (p : Packet) (hF : p.packetType = .close → F) :
    Within (Rises F) (onDatagram suite p) c :=
  onDatagram_ends p (fun _ h => h) fun _ _ _ _ h =>
    Within.trans (h.mono False.elim) (processFrames_rises p.packetType p.frames hF)

theorem decodeDatagram_still (bytes : Bytes) : Within Still (decodeDatagram suite bytes) c := by
  refine .get_bind ((Within.ofExcept _ _).bind fun flags _ => .ite (fun _ => ?_)
    fun _ => .ofExcept _ _)
  split
  · exact .throw _
  · exact .modify_bind ⟨rfl, rfl, rfl, rfl, rfl, rfl⟩ (.ofExcept _ _)

/-! ## Calls of the application -/

theorem openStream_rises : Within (Rises F) openStream c := by
  refine (rises_of_still (ensureEstablished_still _)).bind fun _ c₁ => .get_bind ?_
  have hopened : ∀ c', Within (Rises F) (do
      let streamId ← onStreams (openLocal c₁.role c₁.handshake.peerInitialStreamWindow
        c₁.config.initialStreamWindow)
      modify (·.queue (.streamOpen ⟨streamId, c₁.handshake.peerInitialStreamWindow, true⟩))
      flush
      return streamId) c' := fun _ =>
    (rises_of_still (onStreams_still _)).bind fun _ _ =>
      .modify_bind (Still.rises ⟨rfl, rfl, rfl, rfl, rfl, rfl⟩) (flush_rises.bind fun _ _ =>
        .pure _)
  exact .ite (fun _ => Within.bind (.throw _) fun _ _ => hopened _) fun _ => hopened _

theorem writeStream_rises (streamId : Nat) (data : Bytes) (fin : Bool) :
    Within (Rises F) (writeStream streamId data fin) c :=
  (rises_of_still (ensureEstablished_still _)).bind fun _ _ => .get_bind <|
    (rises_of_still (onStreams_still _)).bind fun _ _ => flush_rises.bind fun _ _ => .pure _

theorem readStream_rises (streamId maxLen : Nat) :
    Within (Rises F) (readStream streamId maxLen) c := by
  refine (rises_of_still (onStreams_still _)).bind fun r c₁ => ?_
  obtain ⟨data, eof, windowUpdate⟩ := r
  have hended : ∀ c₂, Within (Rises F) (do
      if eof then modify (·.emit (.streamFinished streamId))
      flush
      return (⟨data, eof⟩ : ReadResult)) c₂ := fun c₂ =>
    .ite (fun _ => (emit_rises (o := .streamFinished _) fun _ => ⟨trivial, rfl⟩).bind fun _ _ =>
      flush_rises.bind fun _ _ => .pure _) fun _ => flush_rises.bind fun _ _ => .pure _
  have hconsumed : ∀ c₂, Within (Rises F) (do
      if !data.isEmpty then
        modify fun c =>
          { c with connectionReceive := (c.connectionReceive.consume data.length).2 }
      if eof then modify (·.emit (.streamFinished streamId))
      flush
      return (⟨data, eof⟩ : ReadResult)) c₂ := fun c₂ =>
    .ite (fun _ => .modify_bind (Still.rises ⟨rfl, rfl, rfl, rfl, rfl, rfl⟩) (hended _))
      fun _ => hended _
  cases windowUpdate with
  | none => exact hconsumed c₁
  | some maxOffset => exact .modify_bind (Still.rises ⟨rfl, rfl, rfl, rfl, rfl, rfl⟩) (hconsumed _)

theorem close_grows (errorCode : Nat) (reason : Bytes)
    (hbase : base ≤ c.transport.nextPacketNumber) :
    Within (Grows F base) (close errorCode reason) c := by
  refine .get_bind (.ite (fun _ => .pure _) fun hopen => ?_)
  have hnoted : Rises F c { c with closeError := some errorCode } :=
    Still.rises ⟨rfl, rfl, rfl, rfl, rfl, rfl⟩
  have hclosing : Rises F c ({ c with closeError := some errorCode }.setState .closing) :=
    hnoted.trans (.setState fun hne => ⟨ConnectionState.rank_lt_closing hopen hne, nofun⟩)
  have hqueued : ∀ c' : Connection,
      Rises F c' (c'.queue (.connectionClose ⟨errorCode, 0, reason⟩)) :=
    fun _ => Still.rises ⟨rfl, rfl, rfl, rfl, rfl, rfl⟩
  have hsent : ({ c with closeError := some errorCode }.setState .closing).transport.sent =
      c.transport.sent := congrArg TransportState.sent (Connection.setState_transport _ _)
  have hclosed : Grows F base c (({ c with closeError := some errorCode }.setState .closing).queue
      (.connectionClose ⟨errorCode, 0, reason⟩)) :=
    (hclosing.trans (hqueued _)).grows hsent
  refine .modify_bind hclosed (.get_bind (.bind_of
    (P := fun c' => base ≤ c'.transport.nextPacketNumber) ?_ fun _ _ _ hbase => flush_grows hbase))
  refine Ends.mono (onTimers_grows (Adds.scheduleClose ?_ _))
    (fun _ _ h => ⟨h, (hbase.trans hclosed.next).trans h.next⟩) fun _ _ h => h
  show ConnectionState.closing.rank ≤ (Connection.setState _ _).state.rank
  rw [Connection.setState_state]

theorem close_rises (errorCode : Nat) (reason : Bytes) :
    Within (Rises F) (close errorCode reason) c :=
  (close_grows errorCode reason (Nat.le_refl _)).mono fun _ => Grows.toRises

/-! ## Time -/

theorem onHandshakeTimeout_grows : Within (Grows F base) onHandshakeTimeout c := by
  refine .get_bind (.ite (fun _ => .pure _) fun _ => ?_)
  split
  · exact .pure _
  · exact .ite (fun _ => .pure _) fun _ => (grows_of_still (modifyHandshake_still _)).bind
      fun _ _ => .modify_bind (Still.grows ⟨rfl, rfl, rfl, rfl, rfl, rfl⟩)
        ((onTimers_grows (Adds.scheduleHandshake trivial _)).bind fun _ _ => .pure _)

/-- Every event but a retransmission leaves the packets alone, and only the end
of the close timer closes the connection. -/
theorem processTimer_grows {event : TimerEvent} (hevent : ∀ n g, event ≠ .retransmit n g)
    (hbase : base ≤ c.transport.nextPacketNumber) (hF : event = .closeTimeout → F) :
    Within (Grows F base) (processTimer event) c := by
  cases event with
  | handshakeTimeout =>
      refine .get_bind (.ite (fun _ =>
        .bind_of (P := fun c' => base ≤ c'.transport.nextPacketNumber)
        ?_ fun r _ _ hbase => .ite (fun _ => close_grows _ _ hbase) fun _ => .pure _) fun _ =>
        .pure _)
      exact Ends.mono onHandshakeTimeout_grows (fun _ _ h => ⟨h, hbase.trans h.next⟩) fun _ _ h => h
  | retransmit n g => exact absurd rfl (hevent n g)
  | ackDelay =>
      refine grows_of_still (modifyTransport_still ?_ ?_)
      · unfold TransportState.onAckTimer
        split <;> rfl
      · unfold TransportState.onAckTimer
        split <;> rfl
  | keepalive =>
      refine .get_bind (.ite (fun _ => (grows_of_still (modifyTransport_still rfl rfl)).bind
        fun _ _ => .get_bind ?_) fun _ => .get_bind ?_)
      all_goals
        split
        · exact onTimers_grows (Adds.scheduleKeepalive trivial _)
        · exact .pure _
  | idleTimeout => exact .get_bind (.ite (fun _ => close_grows _ _ hbase) fun _ => .pure _)
  | closeTimeout =>
      exact Within.modify (Rises.grows (.close (hF rfl) _ _)
        (congrArg TransportState.sent (Connection.setState_transport _ _)))

end DartUdp.Core
