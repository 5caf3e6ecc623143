import DartUdp.Proofs.ConnClock
import DartUdp.Proofs.ConnNumbers
import DartUdp.Proofs.ConnReopen

/-!
# A batch of timers, foreseen

What an event of a batch does to a connection can be told before the batch is
dealt with, whatever the order it comes in. It takes no more than an outlook: the
state the connection will be in and how often it will have retried its handshake
(`Outlook`). The outlook says which events close the connection (`Outlook.closes`),
which one cannot be dealt with, for a packet that is given up or a timer that the
wheel does not take (`Outlook.refuses`), and what comes after each (`Outlook.next`).

The module is for `closing_ends` and `timer_slots_exact`, whose conditions are said
on the state before a batch. The main lemma is `dealTimer_follows`: a connection
that follows an outlook goes on to follow the next one, unless the event is refused
or closes the connection. It rests on two invariants of every run. A retransmission
that is pending is of a packet that was numbered (`perform_armed`), so a flush
within the batch makes none of its events give up; and stream data that was sent is
of a stream there is a record of (`perform_kept`), so it can be put back.
-/

namespace DartUdp.Core

open DartUdp.Lib DartUdp.Udp

variable {suite : Suite} {L : Prop} {k : Cause} {α : Type} {v v' : View} {c c₀ c' : Connection}
  {t : TimerState} {event : TimerEvent}

/-! ## What an event does -/

/-- What a batch comes to, as far as its later events depend on it: the state of the
connection and the retries of its handshake. -/
structure Outlook where
  state : ConnectionState
  retries : Nat
deriving DecidableEq

def Connection.outlook (c : Connection) : Outlook := ⟨c.state, c.handshake.retries⟩

namespace Outlook

/-- The event closes the connection. -/
def closes (o : Outlook) (c : Connection) : TimerEvent → Bool
  | .handshakeTimeout => o.state = .handshaking &&
      (c.handshake.frame.isNone || c.config.maxRetransmissions ≤ o.retries)
  | .idleTimeout => o.state ≠ .closed && o.state ≠ .closing
  | _ => false

/-- The timer the event sets again, by its length. -/
def resets (o : Outlook) (c : Connection) : TimerEvent → Option Nat
  | .handshakeTimeout =>
      if o.state = .handshaking && !o.closes c .handshakeTimeout then
        some c.config.handshakeTimeout
      else none
  | .keepalive => c.config.keepaliveInterval
  | _ => none

/-- The event gives up on a packet, or has to set a timer that the wheel does not
take. -/
def refuses (o : Outlook) (c : Connection) (event : TimerEvent) : Bool :=
  c.givesUp event || (o.resets c event).any (!c.timers.takes ·)

def next (o : Outlook) (c : Connection) (event : TimerEvent) : Outlook :=
  if o.closes c event then { o with state := .closing }
  else
    match event with
    | .handshakeTimeout =>
        if o.state = .handshaking then { o with retries := min (o.retries + 1) u32Max } else o
    | .closeTimeout => { o with state := .closed }
    | _ => o

end Outlook

theorem closesAt_eq (c : Connection) (event : TimerEvent) :
    c.closesAt event = c.outlook.closes c event := by cases event <;> rfl

/-- An event closes a connection that is neither Closing nor Closed. -/
theorem closes_rank {o : Outlook} (h : o.closes c event = true) :
    o.state.rank < ConnectionState.closing.rank := by
  cases event with
  | handshakeTimeout =>
      simp only [Outlook.closes, Bool.and_eq_true, decide_eq_true_eq] at h
      rw [h.1]
      decide
  | idleTimeout =>
      simp only [Outlook.closes, Bool.and_eq_true, decide_eq_true_eq] at h
      exact ConnectionState.rank_lt_closing h.1 h.2
  | _ => cases h

/-! ## Calls that only send -/

/-- Neither the state nor what the handshake and the limits are has changed, and no
time has passed. -/
structure Steady (c c' : Connection) : Prop where
  state : c'.state = c.state
  config : c'.config = c.config
  handshake : c'.handshake = c.handshake
  time : c.timers.SameTime c'.timers

instance : IsPreorder Connection Steady where
  refl c := ⟨rfl, rfl, rfl, Std.Refl.refl c.timers⟩
  trans c c' c'' h h' := ⟨h'.state.trans h.state, h'.config.trans h.config,
    h'.handshake.trans h.handshake, IsTrans.trans c.timers c'.timers c''.timers h.time h'.time⟩

/-- Nor has anything else that a flush only reads. -/
structure Flushes (c c' : Connection) : Prop extends Steady c c' where
  now : c'.now = c.now
  crypto : c'.packetCrypto = c.packetCrypto
  rtt : c'.transport.rtt = c.transport.rtt
  received : c'.transport.received = c.transport.received
  ack : c'.transport.ackPending = true → c.transport.ackPending = true

namespace Flushes

instance : IsPreorder Connection Flushes where
  refl c := ⟨Std.Refl.refl c, rfl, rfl, rfl, rfl, id⟩
  trans c c' c'' h h' := ⟨IsTrans.trans c c' c'' h.toSteady h'.toSteady, h'.now.trans h.now,
    h'.crypto.trans h.crypto, h'.rtt.trans h.rtt, h'.received.trans h.received,
    fun hpending => h.ack (h'.ack hpending)⟩

/-- What leaves the timers alone. -/
theorem of_timers (hstate : c'.state = c.state) (hconfig : c'.config = c.config)
    (hhandshake : c'.handshake = c.handshake) (htimers : c'.timers = c.timers)
    (hnow : c'.now = c.now) (hcrypto : c'.packetCrypto = c.packetCrypto)
    (hrtt : c'.transport.rtt = c.transport.rtt)
    (hreceived : c'.transport.received = c.transport.received)
    (hack : c'.transport.ackPending = true → c.transport.ackPending = true) : Flushes c c' :=
  ⟨⟨hstate, hconfig, hhandshake, .of_wheel (congrArg TimerState.wheel htimers)⟩, hnow, hcrypto,
    hrtt, hreceived, hack⟩

end Flushes

theorem onStreams_steady (m : StreamsM α) : Within Flushes (onStreams m) c :=
  ends_onStreams.2 (.of_forall (fun _ _ => .of_timers rfl rfl rfl rfl rfl rfl rfl rfl id)
    fun _ _ => .of_timers rfl rfl rfl rfl rfl rfl rfl rfl id)

theorem modifyTransport_steady {f : TransportState → TransportState}
    (hrtt : (f c.transport).rtt = c.transport.rtt)
    (hreceived : (f c.transport).received = c.transport.received)
    (hack : (f c.transport).ackPending = c.transport.ackPending) :
    Within Flushes (modifyTransport f) c :=
  show Flushes c { c with transport := f c.transport } from
    .of_timers rfl rfl rfl rfl rfl rfl hrtt hreceived fun hpending => hack ▸ hpending

theorem putBack_steady (frame : Frame) (count : Nat) : Within Flushes (putBack frame count) c := by
  unfold putBack
  split
  · exact onStreams_steady _
  · exact modifyTransport_steady rfl rfl rfl

theorem requeueCandidate_steady (candidate : Candidate) :
    Within Flushes (requeueCandidate candidate) c := by
  cases candidate with
  | ack a => exact .pure _
  | frame queued => exact putBack_steady _ _

theorem takeCandidate_steady : Within Flushes takeCandidate c := by
  refine .get_bind (.ite (fun _ => (Within.ofExcept _ _).bind fun _ _ => .pure _) fun _ => ?_)
  refine Within.bind (.get_bind ?_) fun _ _ => .pure _
  split
  · exact (modifyTransport_steady rfl rfl rfl).bind fun _ _ => .pure _
  · split
    · exact .modify_bind (.of_timers rfl rfl rfl rfl rfl rfl rfl rfl id) (.pure _)
    · exact .pure _

theorem flowBlocks_steady (candidate : Candidate) : Within Flushes (flowBlocks candidate) c := by
  unfold flowBlocks
  split
  · refine .get_bind (.ite (fun _ => .pure _) fun _ => .ite (fun _ => ?_) fun _ => .pure _)
    exact .modify_bind (.of_timers rfl rfl rfl rfl rfl rfl rfl rfl id) (.pure _)
  · exact .pure _

/-- A timer that is set, or not. -/
theorem schedule_sameTime (event : TimerEvent) (delay : Nat) :
    Within TimerState.SameTime (schedule event delay) t := by
  by_cases hs : t.Sound
  · refine (schedule_takes hs event delay).mono (fun _ _ h => h.2) fun _ t' h => ?_
    rw [h.2]
    exact Std.Refl.refl t
  · exact .of_forall (fun _ _ hs' => absurd hs' hs) fun _ _ hs' => absurd hs' hs

theorem recordSent_steady (n len : Nat) (queued : QueuedFrame) :
    Within Flushes (recordSent n len queued) c := by
  unfold recordSent
  split
  · exact .pure _
  · exact .pure _
  · exact .pure _
  · refine (modifyTransport_steady rfl rfl rfl).bind fun _ c₁ => .get_bind ?_
    refine Within.bind ?_ fun _ _ => modifyTransport_steady rfl rfl rfl
    exact Within.zoom (schedule_sameTime _ _) fun _ ht =>
      ⟨⟨rfl, rfl, rfl, ht⟩, rfl, rfl, rfl, rfl, id⟩

theorem settle_steady (n len : Nat) (candidate : Candidate) :
    Within Flushes (settle n len candidate) c := by
  cases candidate with
  | ack a =>
      exact Within.modify
        ⟨⟨rfl, rfl, rfl, .cancelAck c.timers⟩, rfl, rfl, rfl, rfl, Bool.noConfusion⟩
  | frame queued =>
      exact .ite (fun _ => (recordSent_steady n len queued).bind fun _ _ =>
        modifyTransport_steady rfl rfl rfl) fun _ => .pure _

theorem flushOnce_steady : Within Flushes flushOnce c := by
  refine takeCandidate_steady.bind fun r c₁ => ?_
  cases r with
  | none => exact .pure _
  | some candidate =>
      refine .get_bind (.ofExcept_bind fun len _ => .ite (fun _ => ?_) fun _ => ?_)
      · exact (requeueCandidate_steady candidate).bind fun _ _ => .pure _
      · split
        · exact .throw _
        · refine (modifyTransport_steady rfl rfl rfl).bind fun _ _ =>
            (flowBlocks_steady candidate).bind fun _ _ => .ite (fun _ => ?_) fun _ => ?_
          · exact (requeueCandidate_steady candidate).bind fun _ _ =>
              (modifyTransport_steady rfl rfl rfl).bind fun _ _ => .pure _
          · exact .modify_bind (.of_timers rfl rfl rfl rfl rfl rfl rfl rfl id)
              ((settle_steady _ len candidate).bind fun _ _ => .pure _)

theorem flushLoop_steady (fuel : Nat) : Within Flushes (flushLoop fuel) c := by
  induction fuel generalizing c with
  | zero => exact .pure _
  | succ fuel ih => exact flushOnce_steady.bind fun _ _ => .ite (fun _ => ih) fun _ => .pure _

theorem flush_steady : Within Flushes flush c := .get_bind (flushLoop_steady _)

/-! ## One event -/

/-- A timer that is set in its slot stands for what the wheel takes. -/
theorem arms_steady {m : TimerM Unit} (kind : TimerKind) (delay : Nat)
    (hm : m = do
      let timer ← schedule kind.event delay
      modify (·.withSlot (some timer) kind)) (hs : c.timers.Sound) :
    Ends (onTimers m) c (fun _ c' => c.timers.takes delay = true ∧ Steady c c')
      fun _ c' => c.timers.takes delay = false ∧ Steady c c' := by
  have htakes := sets_takes hs kind delay
  rw [← hm] at htakes
  rw [onTimers, ends_zoom]
  refine htakes.mono (fun _ t ht => ⟨ht.1, rfl, rfl, rfl, ht.2⟩) fun _ t ht => ⟨ht.1, ?_⟩
  rw [ht.2]
  exact Std.Refl.refl c

/-- What is known to have its streams can be put back. -/
theorem putBackAll_runs (count : Nat) {frames : List QueuedFrame}
    (hknown : ∀ q ∈ frames, ∀ d, q.frame = .streamData d → (c.view.streams d.streamId).isSome) :
    Ends (putBackAll count frames) c
      (fun _ c' => Flushes c c' ∧ c'.view = c.view.putBackAll count frames) fun _ _ => False := by
  induction frames generalizing c with
  | nil => exact ⟨Std.Refl.refl c, rfl⟩
  | cons q rest ih =>
      rw [putBackAll, ends_bind]
      refine (Ends.and (putBack_ends q.frame count) (putBack_steady q.frame count)).mono
        (fun _ c₁ h₁ => ?_) fun _ _ h₁ => ?_
      · obtain ⟨⟨hview, _⟩, hflushes⟩ := h₁
        refine (ih fun q' hq' d hd => ?_).mono (fun _ c₂ h₂ => ⟨?_, ?_⟩) fun _ _ h₂ => h₂
        · rw [hview, View.putBack_known]
          exact hknown q' (List.mem_cons_of_mem _ hq') d hd
        · exact IsTrans.trans c c₁ c₂ hflushes h₂.1
        · rw [h₂.2, hview]
          rfl
      · obtain ⟨⟨_, d, hd, hnone⟩, _⟩ := h₁
        have hsome := hknown q List.mem_cons_self d hd
        rw [hnone] at hsome
        cases hsome

/-- Stream data that waits to be acknowledged is of a stream there is a record of. -/
def View.Housed (v : View) : Prop :=
  ∀ n sp, v.unacked n = some sp → ∀ q ∈ sp.frames, ∀ d, q.frame = .streamData d →
    (v.streams d.streamId).isSome

/-- A retransmission fails only where its packet is given up. -/
theorem processRetransmit_foreseen (h : c.view.Housed) (n g : Nat) :
    Ends (processRetransmit n g) c (fun _ c' => Steady c c')
      fun _ _ => c.givesUp (.retransmit n g) = true := by
  simp only [processRetransmit, ends_bind, ends_get]
  cases hs : c.transport.sent[n]? with
  | none => exact Std.Refl.refl c
  | some packet =>
      simp only [ends_steps, ends_modifyTransport, requeueLost]
      refine ⟨fun _ => Std.Refl.refl c, fun hg => ⟨fun hover => ?_, fun _ => ?_⟩⟩
      · rw [givesUp_of_sent hs, decide_eq_true (not_not.1 hg), decide_eq_true hover]
        rfl
      · refine (putBackAll_runs _ fun q hq d hd => ?_).mono (fun _ c₁ h₁ => ?_)
          fun _ _ hfalse => hfalse.elim
        · exact h n packet hs q (List.mem_reverse.1 hq) d hd
        · exact ⟨h₁.1.state, h₁.1.config, h₁.1.handshake, h₁.1.time⟩

theorem Connection.setState_config (c : Connection) (s : ConnectionState) :
    (c.setState s).config = c.config ∧ (c.setState s).handshake = c.handshake := by
  unfold setState
  split
  · exact ⟨rfl, rfl⟩
  · exact ⟨rfl, rfl⟩

/-- A close on an open connection, as far as it ends well. -/
theorem close_foreseen (errorCode : Nat) (reason : Bytes) (hs : c.timers.Sound)
    (hopen : c.state ≠ .closed) :
    Ends (close errorCode reason) c
      (fun _ c' => c'.state = .closing ∧ c'.config = c.config ∧ c'.handshake = c.handshake ∧
        c.timers.SameTime c'.timers)
      fun _ _ => True := by
  simp only [close, ends_steps]
  refine ⟨fun hclosed => absurd hclosed hopen, fun _ => ?_⟩
  generalize hc₁ : (({ c with closeError := some errorCode }.setState .closing).queue
      (.connectionClose ⟨errorCode, 0, reason⟩)) = c₁
  have htimers : c₁.timers = c.timers := hc₁ ▸ Connection.setState_timers _ .closing
  have hstate : c₁.state = .closing := hc₁ ▸ Connection.setState_state _ .closing
  have hconfig : c₁.config = c.config ∧ c₁.handshake = c.handshake :=
    hc₁ ▸ Connection.setState_config _ .closing
  refine (arms_steady .close _ rfl (htimers ▸ hs)).mono (fun _ c₂ h₂ => ?_)
    fun _ _ _ => trivial
  refine Ends.mono flush_steady (fun _ c₃ h₃ => ?_) fun _ _ _ => trivial
  have hsteady : Steady c₁ c₃ := IsTrans.trans c₁ c₂ c₃ h₂.2 h₃.toSteady
  exact ⟨hsteady.state.trans hstate, hsteady.config.trans hconfig.1,
    hsteady.handshake.trans hconfig.2, htimers ▸ hsteady.time⟩

/-- What an event that is dealt with leaves: what was foreseen. -/
structure Comes (event : TimerEvent) (c c' : Connection) : Prop where
  allowed : c.outlook.refuses c event = false
  outlook : c'.outlook = c.outlook.next c event
  config : c'.config = c.config
  frame : c'.handshake.frame = c.handshake.frame
  time : c.timers.SameTime c'.timers

/-- An event that changes nothing of what is foreseen. -/
theorem Steady.comes (h : Steady c c') (hrefuses : c.outlook.refuses c event = false)
    (hnext : c.outlook.next c event = c.outlook) : Comes event c c' := by
  refine ⟨hrefuses, ?_, h.config, congrArg HandshakeState.frame h.handshake, h.time⟩
  rw [hnext, Connection.outlook, h.state, h.handshake]
  rfl

theorem refuses_of_resets {o : Outlook} (hgives : c.givesUp event = false)
    (hresets : ∀ delay ∈ o.resets c event, c.timers.takes delay = true) :
    o.refuses c event = false := by
  unfold Outlook.refuses
  rw [hgives, Bool.false_or]
  cases hdelay : o.resets c event with
  | none => rfl
  | some delay =>
      rw [Option.any_some, hresets delay hdelay]
      rfl

theorem refuses_of_unset {o : Outlook} (hgives : c.givesUp event = false)
    (hresets : o.resets c event = none) : o.refuses c event = false := by
  refine refuses_of_resets hgives fun delay hdelay => ?_
  cases hresets.symm.trans hdelay

theorem refuses_of_untaken {o : Outlook} {delay : Nat} (hresets : o.resets c event = some delay)
    (htakes : c.timers.takes delay = false) : o.refuses c event = true := by
  unfold Outlook.refuses
  rw [hresets, Option.any_some, htakes]
  exact Bool.or_true _

theorem onHandshakeTimeout_foreseen (hs : c.timers.Sound) (hstate : c.state = .handshaking) :
    Ends onHandshakeTimeout c
      (fun r c' => r = c.outlook.closes c .handshakeTimeout ∧
        if r then c' = c else Comes .handshakeTimeout c c')
      fun _ _ => c.outlook.refuses c .handshakeTimeout = true := by
  have hcloses : c.outlook.closes c .handshakeTimeout = (c.handshake.frame.isNone ||
      decide (c.config.maxRetransmissions ≤ c.handshake.retries)) := by
    unfold Outlook.closes
    rw [show c.outlook.state = .handshaking from hstate]
    rfl
  simp only [onHandshakeTimeout, ends_steps]
  refine ⟨fun hne => absurd hstate hne, fun _ => ?_⟩
  cases hframe : c.handshake.frame with
  | none =>
      refine ⟨?_, rfl⟩
      rw [hcloses, hframe]
      rfl
  | some frame =>
      simp only [ends_steps, ends_modifyHandshake]
      refine ⟨fun hspent => ⟨?_, trivial⟩, fun hleft => ?_⟩
      · rw [hcloses, decide_eq_true hspent, Bool.or_true]
      · have hstays : c.outlook.closes c .handshakeTimeout = false := by
          rw [hcloses, hframe, decide_eq_false hleft]
          rfl
        have hresets : c.outlook.resets c .handshakeTimeout = some c.config.handshakeTimeout := by
          unfold Outlook.resets
          rw [hstays, show c.outlook.state = .handshaking from hstate]
          rfl
        refine Ends.mono (arms_steady (c := Connection.queueFront _ frame) .handshake _
          rfl hs) (fun _ c' h' => ⟨hstays.symm, ?_⟩) fun _ _ h' => refuses_of_untaken hresets h'.1
        refine ⟨refuses_of_resets rfl fun delay hdelay => ?_, ?_, h'.2.config, ?_, h'.2.time⟩
        · cases hresets.symm.trans hdelay
          exact h'.1
        · have hnext : c.outlook.next c .handshakeTimeout =
              ⟨c.state, min (c.handshake.retries + 1) u32Max⟩ := by
            unfold Outlook.next
            rw [hstays, if_neg Bool.false_ne_true]
            exact if_pos hstate
          rw [hnext, Connection.outlook, h'.2.state, h'.2.handshake]
          rfl
        · rw [h'.2.handshake]
          rfl

/-- The keepalive timer is set again. -/
theorem keepalive_foreseen (hs : c.timers.Sound) {interval : Nat}
    (hinterval : c.config.keepaliveInterval = some interval) (h₁ : Steady c c₁)
    (htimers : c₁.timers = c.timers) :
    Ends (onTimers (scheduleKeepalive interval)) c₁ (fun _ c' => Comes .keepalive c c')
      fun _ _ => c.outlook.refuses c .keepalive = true ∨ c.outlook.closes c .keepalive = true := by
  have harms := arms_steady .keepalive interval rfl (htimers ▸ hs)
  refine Ends.mono harms (fun _ c₂ h₂ => ?_) fun _ _ h₂ =>
    .inl (refuses_of_untaken hinterval (htimers ▸ h₂.1))
  have hsteady : Steady c c₂ := IsTrans.trans c c₁ c₂ h₁ h₂.2
  refine hsteady.comes (refuses_of_resets rfl fun delay hdelay => ?_) rfl
  cases hinterval.symm.trans hdelay
  exact htimers ▸ h₂.1

/-- **An event, foreseen.** An event that is dealt with leaves what was foreseen; one
that is not is refused, or closes the connection. -/
theorem processTimer_foreseen (hs : c.timers.Sound) (hhoused : c.view.Housed) (event : TimerEvent) :
    Ends (processTimer event) c (fun _ c' => Comes event c c')
      fun _ _ => c.outlook.refuses c event = true ∨ c.outlook.closes c event = true := by
  have hclosed : ∀ (code : Nat) (reason : Bytes), c.state ≠ .closed →
      c.outlook.closes c event = true → c.outlook.refuses c event = false →
      Ends (close code reason) c (fun _ c' => Comes event c c')
        fun _ _ => c.outlook.refuses c event = true ∨ c.outlook.closes c event = true := by
    intro code reason hopen hcloses hrefuses
    refine (close_foreseen code reason hs hopen).mono (fun _ c' h' => ?_) fun _ _ _ => .inr hcloses
    obtain ⟨hstate, hconfig, hhandshake, htime⟩ := h'
    refine ⟨hrefuses, ?_, hconfig, congrArg HandshakeState.frame hhandshake, htime⟩
    unfold Outlook.next
    rw [if_pos hcloses, Connection.outlook, hstate, hhandshake]
    rfl
  cases event with
  | handshakeTimeout =>
      simp only [processTimer, ends_steps]
      refine ⟨fun hstate => ?_, fun hstate => ?_⟩
      · refine (onHandshakeTimeout_foreseen hs hstate).mono (fun r c₁ h₁ => ?_)
          fun _ _ h₁ => .inl h₁
        obtain ⟨hcloses, hleft⟩ := h₁
        refine ⟨fun hr => ?_, fun hr => by rwa [if_neg hr] at hleft⟩
        subst hr
        rw [if_pos rfl] at hleft
        subst hleft
        refine hclosed _ _ ?_ hcloses.symm (refuses_of_resets rfl fun delay hdelay => ?_)
        · rw [hstate]
          exact ConnectionState.noConfusion
        · unfold Outlook.resets at hdelay
          rw [← hcloses, Bool.not_true, Bool.and_false, if_neg Bool.false_ne_true] at hdelay
          cases hdelay
      · have hne : ¬ c.outlook.state = .handshaking := hstate
        have hcloses : c.outlook.closes c .handshakeTimeout = false := by
          unfold Outlook.closes
          rw [decide_eq_false hne, Bool.false_and]
        refine Steady.comes (Std.Refl.refl c) (refuses_of_resets rfl fun delay hdelay => ?_) ?_
        · unfold Outlook.resets at hdelay
          rw [decide_eq_false hne, Bool.false_and, if_neg Bool.false_ne_true] at hdelay
          cases hdelay
        · unfold Outlook.next
          rw [hcloses, if_neg Bool.false_ne_true, if_neg hne]
  | retransmit n g =>
      rw [processTimer, closeOnLimit, ends_tryCatch]
      refine ((processRetransmit_foreseen hhoused n g).and (processRetransmit_ends 0 n g)).mono
        (fun _ c' h' => h'.1.comes (refuses_of_unset h'.2.1 rfl) rfl) fun e c₁ h₁ => ?_
      have hrefused : c.outlook.refuses c (.retransmit n g) = true := by
        unfold Outlook.refuses
        rw [h₁.1]
        rfl
      simp only [ends_steps]
      exact ⟨fun _ => .inl hrefused, fun _ => .inl hrefused⟩
  | ackDelay =>
      exact Steady.comes ⟨rfl, rfl, rfl, Std.Refl.refl c.timers⟩ (refuses_of_unset rfl rfl) rfl
  | keepalive =>
      have hpinged : Steady c { c with transport := c.transport.queueKeepalive } :=
        ⟨rfl, rfl, rfl, Std.Refl.refl c.timers⟩
      simp only [processTimer, ends_steps, ends_modifyTransport]
      cases hinterval : c.config.keepaliveInterval with
      | none =>
          have hkept : c.outlook.refuses c .keepalive = false := refuses_of_unset rfl hinterval
          exact ⟨fun _ => hpinged.comes hkept rfl,
            fun _ => Steady.comes (Std.Refl.refl c) hkept rfl⟩
      | some interval =>
          exact ⟨fun _ => keepalive_foreseen hs hinterval hpinged rfl,
            fun _ => keepalive_foreseen hs hinterval (Std.Refl.refl c) rfl⟩
  | idleTimeout =>
      simp only [processTimer, ends_steps]
      refine ⟨fun hopen => ?_, fun hshut => ?_⟩
      · refine hclosed _ _ ?_ hopen (refuses_of_unset rfl rfl)
        simp only [Bool.and_eq_true, decide_eq_true_eq] at hopen
        exact hopen.1
      · have hstays : c.outlook.closes c .idleTimeout = false := Bool.eq_false_iff.2 hshut
        refine Steady.comes (Std.Refl.refl c) (refuses_of_unset rfl rfl) ?_
        unfold Outlook.next
        rw [hstays, if_neg Bool.false_ne_true]
  | closeTimeout =>
      have hstate := Connection.setState_state { c with timers := c.timers.cancelAll } .closed
      have hsame := Connection.setState_config { c with timers := c.timers.cancelAll } .closed
      have htimers := Connection.setState_timers { c with timers := c.timers.cancelAll } .closed
      simp only [processTimer, ends_modify]
      refine ⟨refuses_of_unset rfl rfl, ?_, hsame.1, congrArg HandshakeState.frame hsame.2, ?_⟩
      · show Connection.outlook (Connection.setState _ _) = _
        unfold Connection.outlook
        rw [hstate, hsame.2]
        rfl
      · show c.timers.SameTime (Connection.setState _ _).timers
        rw [htimers]
        exact .cancelAll c.timers

/-! ## What every run keeps -/

/-- A stream stays known. -/
theorem Edit.streams_stay (e : Edit suite L k v v') {id : Nat} (h : (v.streams id).isSome) :
    (v'.streams id).isSome := by
  obtain ⟨s, hs⟩ := Option.isSome_iff_exists.1 h
  have hknown : v.windowOf id = some s.send.maxOffset := by
    rw [View.windowOf, hs]
    rfl
  obtain ⟨window, hwindow, _⟩ := e.grows hknown
  obtain ⟨s', hs', _⟩ := Option.map_eq_some_iff.1 hwindow
  rw [hs']
  rfl

/-- A packet that waits to be acknowledged did so before, or holds the frame that
was just taken. -/
theorem Edit.unacked_new (e : Edit suite L k v v') {n : Nat} {sp : SentPacket}
    (h : v'.unacked n = some sp) :
    v.unacked n = some sp ∨ ∃ q v₁, Takes v q v₁ ∧ sp.frames = [q] := by
  have hforget : ∀ {m : Nat}, (v.forget m).unacked n = some sp → v.unacked n = some sp := by
    intro m hm
    by_cases hn : n = m
    · rw [hn, View.forget_self] at hm
      cases hm
    · rwa [View.forget_of_ne hn] at hm
  cases e with
  | read id maxLen s =>
      obtain ⟨_, _, _, heq⟩ := v.read_eq id maxLen s
      rw [heq] at h
      exact .inl h
  | ack p a m sp' => exact .inl (hforget h)
  | lose m count sp' =>
      obtain ⟨_, _, heq, _⟩ := View.outward_putBackAll (v.forget m) count sp'.frames.reverse
      rw [heq] at h
      exact .inl (hforget h)
  | drop m count j sp' =>
      obtain ⟨_, _, heq, _⟩ :=
        View.outward_putBackAll (v.forget m) count (sp'.frames.reverse.take j)
      rw [heq] at h
      exact .inl (hforget h)
  | emit q v₁ sp' ht henc hflow hframes =>
      obtain ⟨_, _, rfl, _⟩ := id ht.outward
      obtain ⟨_, hacc⟩ := View.account_eq _ q
      rw [hacc] at h
      by_cases hn : n = v.next
      · rw [hn, View.track_self] at h
        cases h
        exact .inr ⟨q, _, ht, hframes⟩
      · rw [View.track_of_ne hn] at h
        exact .inl h
  | pass q v₁ ht =>
      obtain ⟨_, _, rfl, _⟩ := ht.outward
      obtain ⟨_, hacc⟩ := View.account_eq _ q
      rw [hacc] at h
      exact .inl h
  | lost q v₁ next hl ht =>
      obtain ⟨_, _, rfl, _⟩ := ht.outward
      exact .inl h
  | back q v₁ ht =>
      obtain ⟨_, _, heq, _⟩ := ht.outward.trans (v₁.outward_putBack q.frame q.retransmitCount)
      rw [heq] at h
      exact .inl h
  | _ => exact .inl h

theorem Edit.housed (e : Edit suite L k v v') (hapart : v.Apart) (h : v.Housed) : v'.Housed := by
  intro n sp hsp q hq d hd
  refine e.streams_stay ?_
  rcases e.unacked_new hsp with hold | ⟨q', v₁, ht, hframes⟩
  · exact h n sp hold q hq d hd
  · rw [hframes, List.mem_singleton] at hq
    subst hq
    cases ht with
    | pending _ rest hp => exact absurd hd (hapart.pending q (hp ▸ List.mem_cons_self) d)
    | stream id s item send hs hpop =>
        cases hd
        rw [hs]
        rfl

/-- Nothing that can be sent is of a stream that is not there. -/
structure View.Settled (v : View) : Prop where
  apart : v.Apart
  housed : v.Housed

theorem Edits.settled (h : Edits suite L k v v') (hv : v.Settled) : v'.Settled := by
  induction h with
  | refl => exact hv
  | tail _ e ih => exact ⟨e.apart ih.apart, e.housed ih.apart ih.housed⟩

theorem fresh_settled {role : ConnectionRole} {config : ConnectionConfig}
    (h : Fresh suite role config c) : c.view.Settled := by
  obtain ⟨_, id, handshake, hunused, hedits⟩ := fresh_edits h
  refine hedits.settled ⟨initial_apart suite role hunused, fun n sp hsp => ?_⟩
  cases role with
  | client => cases hsp
  | server => cases hsp

/-- Whatever happens, the timers hold what they may: the connection that gives up on
a packet is Closing, also where it was Closed. -/
theorem closeOnLimit_armed {m : ConnM α} (hm : Within (Rises True) m c) :
    Within (fun c c' => Armed c → Armed c') (closeOnLimit m) c := by
  simp only [closeOnLimit, Within, ends_tryCatch]
  refine Ends.mono hm (fun _ _ h => h.armed) fun e c₁ h => ?_
  simp only [ends_steps]
  refine ⟨fun _ harmed => ⟨?_, fun id event hlive => ?_⟩, fun _ => h.armed⟩
  · rw [Connection.setState_timers]
    exact (h.armed harmed).sound
  · rw [Connection.setState_timers] at hlive
    have hawaits := (h.armed harmed).awaits id event hlive
    cases event with
    | retransmit n g =>
        show n < (Connection.setState _ _).transport.nextPacketNumber
        rw [Connection.setState_transport]
        exact hawaits
    | closeTimeout =>
        show _ ≤ (Connection.setState _ _).state.rank
        rw [Connection.setState_state]
    | _ => trivial

theorem processTimer_armed (event : TimerEvent) :
    Within (fun c c' => Armed c → Armed c') (processTimer event) c := by
  cases event with
  | retransmit n g => exact closeOnLimit_armed (processRetransmit_rises n g)
  | _ =>
      exact (@processTimer_grows True 0 c _ (fun n g => TimerEvent.noConfusion)
        (Nat.zero_le _) fun _ => trivial).mono fun _ h => h.armed

theorem processTimers_armed (events : List TimerEvent) :
    Within (fun c c' => Armed c → Armed c') (processTimers events) c := by
  induction events generalizing c with
  | nil => exact fun h => h
  | cons event rest ih =>
      rw [processTimers, Within, ends_bind, ends_modify, ends_bind]
      have hcleared : Armed c → Armed { c with timers := c.timers.clearSlot event } :=
        Rises.arm (c := c) (Nat.le_refl _) (Nat.le_refl _) (.clearSlot event)
      refine Ends.mono (processTimer_armed event) (fun _ c₁ h₁ => ?_)
        fun _ _ h₁ h => h₁ (hcleared h)
      exact Ends.mono ih (fun _ _ h₂ h => h₂ (h₁ (hcleared h))) fun _ _ h₂ h => h₂ (h₁ (hcleared h))

theorem advanceTime_armed (elapsed : Nat) :
    Within (fun c c' => Armed c → Armed c') (advanceTime elapsed) c := by
  simp only [advanceTime, Within, ends_steps, onTimers, ends_zoom]
  refine ⟨fun _ h => h, fun _ => ?_⟩
  have hadvanced : ∀ t, Adds c.Awaits c.timers t → Armed c →
      Armed { c with now := c.now + elapsed, timers := t } := fun t ht =>
    Rises.arm (c := c) (Nat.le_refl _) (Nat.le_refl _) ht
  refine Ends.mono (Adds.advance elapsed) (fun events t ht => ?_) fun _ t ht => hadvanced t ht
  refine Ends.mono (processTimers_armed events) (fun _ c₁ h₁ => ?_)
    fun _ _ h₁ h => h₁ (hadvanced t ht h)
  exact Ends.mono (flush_rises (F := True)) (fun _ _ h₂ h => h₂.armed (h₁ (hadvanced t ht h)))
    fun _ _ h₂ h => h₂.armed (h₁ (hadvanced t ht h))

theorem perform_armed (op : Op) (h : Armed c) : Armed (after (perform suite op) c) := by
  cases op with
  | advanceTime elapsed =>
      exact Within.after (R := fun c c' => Armed c → Armed c')
        (ends_bind.2 (advanceTime_armed elapsed)) h
  | drainOutput => exact ⟨h.sound, h.awaits⟩
  | _ =>
      refine Rises.armed (perform_rises h ?_ ?_) h
      · exact Op.noConfusion
      · exact trivial

/-- What a batch can rely on in every state of a run. -/
structure Connection.Kept (c : Connection) : Prop where
  armed : Armed c
  settled : c.view.Settled

theorem fresh_kept {role : ConnectionRole} {config : ConnectionConfig}
    (h : Fresh suite role config c) : c.Kept := ⟨(fresh_rise h).1, fresh_settled h⟩

theorem perform_kept (op : Op) (h : c.Kept) : (after (perform suite op) c).Kept :=
  ⟨perform_armed op h.armed, (perform_edits suite op c).settled h.settled⟩

/-- So is the connection on which the loop over a batch starts, with events the
connection awaits. -/
theorem Connection.Kept.advance (h : c.Kept) (elapsed : Nat) :
    Ends (advance elapsed) c.timers
      (fun events t => Connection.Kept { c with now := c.now + elapsed, timers := t } ∧
        ∀ event ∈ events, c.Awaits event)
      fun _ _ => True :=
  (advance_due h.armed elapsed).mono (fun _ _ ht =>
    ⟨⟨Rises.arm (c := c) (Nat.le_refl _) (Nat.le_refl _) ht.2.1 h.armed, h.settled⟩, ht.2.2⟩)
    fun _ _ _ => trivial

/-! ## Following the outlook -/

/-- The connection is what was foreseen on `c₀`, as far as a batch depends on it. -/
structure Follows (c₀ : Connection) (o : Outlook) (c : Connection) : Prop where
  outlook : c.outlook = o
  config : c.config = c₀.config
  frame : c.handshake.frame = c₀.handshake.frame
  takes : ∀ delay, c.timers.takes delay = c₀.timers.takes delay
  sound : c.timers.Sound
  next : c₀.transport.nextPacketNumber ≤ c.transport.nextPacketNumber
  spares : Spares c₀.transport.nextPacketNumber c₀ c
  settled : c.view.Settled

theorem Connection.Kept.follows (h : c.Kept) : Follows c c.outlook c :=
  ⟨rfl, rfl, rfl, fun _ => rfl, h.armed.sound, Nat.le_refl _, fun _ _ => rfl, h.settled⟩

namespace Follows

variable {o : Outlook}

theorem closes (h : Follows c₀ o c) (event : TimerEvent) :
    c.outlook.closes c event = o.closes c₀ event := by
  rw [h.outlook]
  unfold Outlook.closes
  rw [h.config, h.frame]

theorem closesAt (h : Follows c₀ o c) (event : TimerEvent) : c.closesAt event = o.closes c₀ event :=
  (closesAt_eq c event).trans (h.closes event)

theorem canClose (h : Follows c₀ o c) : c.canClose = c₀.canClose := by
  unfold Connection.canClose
  rw [h.config, h.takes]

theorem refuses (h : Follows c₀ o c)
    (hnumber : ∀ n g, event = .retransmit n g → n < c₀.transport.nextPacketNumber) :
    c.outlook.refuses c event = o.refuses c₀ event := by
  have hresets : c.outlook.resets c event = o.resets c₀ event := by
    unfold Outlook.resets
    rw [h.closes, h.outlook, h.config]
  have htakes : c.timers.takes = c₀.timers.takes := funext h.takes
  unfold Outlook.refuses
  rw [h.spares event hnumber, hresets, htakes]

theorem foresees (h : Follows c₀ o c) (event : TimerEvent) :
    c.outlook.next c event = o.next c₀ event := by
  unfold Outlook.next
  rw [h.closes, h.outlook]

/-- The slot of the event is emptied. -/
theorem clear (h : Follows c₀ o c) (event : TimerEvent) :
    Follows c₀ o { c with timers := c.timers.clearSlot event } := by
  obtain ⟨hsound, htakes⟩ := TimerState.SameTime.clearSlot c.timers event h.sound
  exact ⟨h.outlook, h.config, h.frame, fun delay => (htakes delay).trans (h.takes delay), hsound,
    h.next, h.spares, h.settled⟩

end Follows

/-- **A step of the batch.** A connection that follows the outlook follows the next one
after an event, unless the event is refused or closes the connection. -/
theorem dealTimer_follows {o : Outlook} (h : Follows c₀ o c)
    (hnumber : ∀ n g, event = .retransmit n g → n < c₀.transport.nextPacketNumber) :
    Ends (dealTimer event) c
      (fun _ c' => o.refuses c₀ event = false ∧ Follows c₀ (o.next c₀ event) c')
      fun _ _ => o.refuses c₀ event = true ∨ o.closes c₀ event = true := by
  rw [dealTimer, ends_bind, ends_modify]
  have h := h.clear event
  generalize ({ c with timers := c.timers.clearSlot event } : Connection) = c₁ at h ⊢
  have hforeseen := processTimer_foreseen h.sound h.settled.housed event
  rw [h.refuses hnumber, h.closes] at hforeseen
  -- A timer needs no cryptographic primitives, so any will do.
  have hdoes : Does sampleSuite .other (processTimer event) c₁ := processTimer_does event
  refine ((hforeseen.and (processTimer_spares h.next)).and
    (Ends.and hdoes (Ends.run _ _))).mono (fun _ c' h' => ?_) fun _ _ h' => h'.1.1
  obtain ⟨⟨hcomes, hgives, hspares⟩, hedits, hrun⟩ := h'
  have hrises := (processTimer_rises (F := True) hgives fun _ => trivial).ok hrun
  obtain ⟨hsound, htakes⟩ := hcomes.time h.sound
  refine ⟨?_, ?_, hcomes.config.trans h.config, hcomes.frame.trans h.frame,
    fun delay => (htakes delay).trans (h.takes delay), hsound, h.next.trans hrises.next, ?_,
    hedits.settled h.settled⟩
  · exact (h.refuses hnumber).symm.trans hcomes.allowed
  · exact hcomes.outlook.trans (h.foresees event)
  · exact fun e hlt => (hspares e hlt).trans (h.spares e hlt)

end DartUdp.Core
