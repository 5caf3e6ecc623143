import DartUdp.Proofs.ConnAcks
import DartUdp.Proofs.ConnBatch
import DartUdp.Proofs.ConnFrames
import DartUdp.Proofs.ConnHeld

/-!
# A flush that cannot fail

Within a batch of timers a flush runs only where an event closes the connection. It
fails at a frame or an ACK that no packet has room for, at the end of the packet
numbers, and at a timer that is too long for the wheel. All of this can be told on
the connection the batch finds (`Connection.closable`): the frames it holds only
move, between the queues and the packets that wait to be acknowledged, until the
connection closes.

The module is for `timer_slots_exact`, where a batch that stops at an event it could
not deal with leaves the slots of its later events set. `flush_runs` says that a
flush ends well on a connection of which everything fits, `dealTimer_stocks` that an
event which does not close the connection adds a frame of the connection's own at
most, and `close_runs` puts the two together.
-/

namespace DartUdp.Core

open DartUdp.Lib DartUdp.Udp

variable {suite : Suite} {P : Frame → Prop} {v v' : View} {c c₀ c' : Connection}
  {event : TimerEvent} {n : Nat}

/-! ## What fits -/

/-- The frame fits a packet of a connection that is Closing. -/
def Connection.fits (c : Connection) (f : Frame) : Bool :=
  match f.encode with
  | .ok bytes =>
      bytes.length ≤ 0xffff &&
        fixedHeaderLen + bytes.length +
          (if ({ c with state := .closing } : Connection).encrypts (packetType f .closing) then
            aeadTagLen else 0) ≤ c.config.maxDatagramSize
  | .error _ => false

theorem fits_congr (hconfig : c'.config = c.config) (hcrypto : c'.packetCrypto = c.packetCrypto) :
    c'.fits = c.fits := by
  funext f
  unfold Connection.fits Connection.encrypts
  rw [hconfig, hcrypto]

/-- A frame that fits has a length on the wire. -/
theorem encodedLen_of_fits (candidate : Candidate) (hstate : c.state = .closing)
    (h : c.fits candidate.outbound = true) :
    ∃ len, c.encodedLen (c.packetFor candidate) = .ok len := by
  have htype : candidate.packetType c.state = packetType candidate.outbound .closing := by
    rw [hstate]
    cases candidate <;> rfl
  have hsame : ({ c with state := .closing } : Connection) = c := by rw [← hstate]
  unfold Connection.fits at h
  split at h
  · next bytes hbytes =>
      rw [Bool.and_eq_true, decide_eq_true_eq, decide_eq_true_eq, hsame, ← htype] at h
      exact encodedLen_of_encode hbytes h.1 h.2
  · cases h

/-- The view without what went out. -/
def View.unsent (v : View) : View := { v with sends := [] }

theorem Takes.unsent {q : QueuedFrame} (h : Takes v q v') : Takes v.unsent q v'.unsent := by
  cases h with
  | pending _ rest hp => exact .pending q rest hp
  | stream id s item send hs hpop => exact .stream id s item send hs hpop

/-- An ACK of what was received fits, where one is to be sent. -/
def Connection.ackFits (c : Connection) : Bool :=
  !c.transport.ackPending ||
    match c.transport.received.frame c.now c.config.ackDelay with
    | .ok (some a) => c.fits (.ack a)
    | .ok none => true
    | .error _ => false

/-- A connection that is Closing and of which everything fits, with numbers and a timer
for the packets it will take. -/
structure Connection.Flushable (c : Connection) : Prop where
  state : c.state = .closing
  apart : c.view.Apart
  carried : c.view.unsent.Carries (c.fits · = true)
  ack : c.ackFits = true
  numbers : c.transport.nextPacketNumber + c.load ≤ u64Max
  timer : c.timers.takes c.transport.rtt.rto = true
  sound : c.timers.Sound

/-! ## The flush -/

theorem recordSent_runs (len : Nat) (q : QueuedFrame) (hs : c.timers.Sound)
    (htimer : c.timers.takes c.transport.rtt.rto = true) :
    Ends (recordSent n len q) c (fun _ _ => True) fun _ _ => False := by
  unfold recordSent
  split
  · trivial
  · trivial
  · trivial
  · simp only [ends_bind, ends_get, ends_modifyTransport, onTimers, ends_zoom]
    refine (schedule_takes hs _ _).mono (fun _ _ _ => trivial) fun _ _ h => ?_
    cases htimer.symm.trans h.1

/-- A round of the flush does not fail. -/
theorem flushOnce_runs (h : c.Flushable) :
    Ends flushOnce c (fun _ _ => True) fun _ _ => False := by
  have hnumber : ∀ {m : Nat}, c.load = m + 1 →
      checkedAdd c.transport.nextPacketNumber 1 = some (c.transport.nextPacketNumber + 1) := by
    intro m hm
    have hroom := h.numbers
    exact checkedAdd_eq_some.2 ⟨by omega, rfl⟩
  simp only [flushOnce, takeCandidate, ends_bind, ends_get, ends_ite]
  refine ⟨fun hdue => ?_, fun hdue => ?_⟩
  · have hack := h.ack
    unfold Connection.ackFits at hack
    rw [(Bool.and_eq_true_iff.1 hdue).1, Bool.not_true, Bool.false_or] at hack
    simp only [ends_ofExcept, ends_pure]
    refine ⟨fun r hr => ?_, fun e he => ?_⟩
    · rw [hr] at hack
      cases r with
      | none => trivial
      | some a =>
          obtain ⟨len, hlen⟩ := encodedLen_of_fits (.ack a) h.state hack
          have hload : c.load = c.transport.pendingFrames.length +
              mapSum c.streams.streams (·.send.queue.length) + 1 := by
            unfold Connection.load
            rw [if_pos hdue]
          simp only [Option.map_some, ends_bind, ends_get, ends_ofExcept, ends_ite]
          refine ⟨fun len' _ => ⟨fun _ => ?_, fun _ => ?_⟩, fun e he => ?_⟩
          · simp only [requeueCandidate, ends_pure]
          · rw [hnumber hload]
            simp only [ends_bind, ends_modifyTransport, flowBlocks, ends_pure, ends_ite, settle,
              ends_modify]
            exact ⟨fun hfalse => absurd hfalse Bool.false_ne_true, fun _ => trivial⟩
          · cases hlen.symm.trans he
    · rw [he] at hack
      cases hack
  · simp only [ends_pure]
    have hload := takeCandidate_load (c := c)
    simp only [takeCandidate, ends_bind, ends_get, ends_ite, ends_pure] at hload
    refine ((takeDataCandidate_took h.apart).and (takeDataCandidate_ends.and
      (hload.2 hdue))).mono (fun r c₁ hr => ?_) fun _ _ h' => h'.1
    cases r with
    | none => trivial
    | some q =>
        obtain ⟨htook, htakes, hless⟩ := hr
        have htook : c.Took q c₁ := htook
        have htakes : Takes c.view q c₁.view := htakes
        have hless : c₁.load + 1 = c.load := hless
        obtain ⟨pending, streams, rfl⟩ := htook.rest
        have hfits := (h.carried.takes htakes.unsent).1
        obtain ⟨len, hlen⟩ := encodedLen_of_fits (c := { c with
          transport := { c.transport with pendingFrames := pending }, streams := streams })
          (.frame q) h.state hfits
        simp only [Option.map_some, ends_bind, ends_get, ends_ofExcept, ends_ite]
        refine ⟨fun len' _ => ⟨fun _ => ?_, fun _ => ?_⟩, fun e he => ?_⟩
        · exact (htook.back c.transport.nextPacketNumber).mono (fun _ _ _ => trivial)
            fun _ _ h' => h'.elim
        · rw [hnumber hless.symm]
          simp only [ends_bind, ends_modifyTransport]
          refine (Ends.and (flowBlocks_overdraws q) (flowBlocks_steady (.frame q))).mono
            (fun blocked c₂ h₂ => ?_) fun _ _ h₂ => h₂.1.elim
          obtain ⟨hblocked, hflushes⟩ := h₂
          simp only [ends_ite, ends_bind, ends_modify, ends_modifyTransport, ends_pure, settle]
          refine ⟨fun hwaits => ?_, fun _ => ⟨fun _ => ?_, fun _ => trivial⟩⟩
          · obtain ⟨rfl, _⟩ := hblocked hwaits
            exact (htook.back _).mono (fun _ _ _ => trivial) fun _ _ h' => h'.elim
          · obtain ⟨hsound, htakes'⟩ := hflushes.time h.sound
            refine (recordSent_runs (c := c₂.emit _) len' q hsound ?_).mono (fun _ _ _ => trivial)
              fun _ _ h' => h'
            show c₂.timers.takes c₂.transport.rtt.rto = true
            rw [htakes', hflushes.rtt]
            exact h.timer
        · cases hlen.symm.trans he

/-- A round that goes on takes a number, and what is left has the property that
everything had. -/
theorem Round.carries (h : Round v true v') (hc : v.unsent.Carries P) :
    v'.next = v.next + 1 ∧ v'.unsent.Carries P := by
  cases h with
  | ack a hcovers hlast => exact ⟨rfl, hc.keep rfl rfl rfl rfl rfl⟩
  | sent q v₁ _ ht henc hflow hlast hgone =>
      obtain ⟨hq, h₁⟩ := hc.takes ht.unsent
      obtain ⟨sent, hsent⟩ := v₁.account_eq q
      rw [hsent] at hgone
      have hnext : v₁.next = v.next := ht.frame_eq.2.1
      rcases hgone with ⟨_, rfl⟩ | ⟨_, sp, hframes, _, rfl⟩
      · exact ⟨congrArg (· + 1) hnext, h₁.keep rfl rfl rfl rfl rfl⟩
      · have htracked : ∀ q' ∈ sp.frames, P q'.frame := fun q' hq' => by
          rw [hframes] at hq'
          exact List.mem_singleton.1 hq' ▸ hq
        exact ⟨congrArg (· + 1) hnext, (h₁.track htracked v.next).keep rfl rfl rfl rfl rfl⟩

/-- A round that goes on leaves a connection of which everything fits. -/
theorem flushOnce_flushable (h : c.Flushable) :
    Ends flushOnce c (fun more c' => more = true → c'.Flushable) fun _ _ => False := by
  have hdoes : Does sampleSuite .other flushOnce c := flushOnce_does
  refine ((flushOnce_runs h).and (Ends.and flushOnce_steady (flushOnce_ends.and
    (flushOnce_load.and hdoes)))).mono (fun more c' h' hmore => ?_) fun _ _ h' => h'.1
  subst hmore
  obtain ⟨_, hflushes, hround, hload, hedits⟩ := h'
  have hless := hload rfl
  have hfits : c'.fits = c.fits := fits_congr hflushes.config hflushes.crypto
  obtain ⟨hsound, htakes⟩ := hflushes.time h.sound
  obtain ⟨hnext, hcarried⟩ := hround.carries h.carried
  refine ⟨hflushes.state.trans h.state, hedits.apart h.apart, ?_, ?_, ?_, ?_, hsound⟩
  · rw [hfits]
    exact hcarried
  · have hack := h.ack
    unfold Connection.ackFits at hack ⊢
    rw [hfits, hflushes.received, hflushes.now, hflushes.config]
    cases hpending : c'.transport.ackPending with
    | false => rfl
    | true => rwa [hflushes.ack hpending] at hack
  · have hroom := h.numbers
    have hnext : c'.transport.nextPacketNumber = c.transport.nextPacketNumber + 1 := hnext
    omega
  · rw [htakes, hflushes.rtt]
    exact h.timer

theorem flushLoop_runs (h : c.Flushable) :
    Ends (flushLoop n) c (fun _ _ => True) fun _ _ => False := by
  induction n generalizing c with
  | zero => trivial
  | succ n ih =>
      rw [flushLoop, ends_bind]
      refine (flushOnce_flushable h).mono (fun more c' h' => ?_) fun _ _ h' => h'
      rw [ends_ite]
      exact ⟨fun hmore => ih (h' hmore), fun _ => trivial⟩

theorem flush_runs (h : c.Flushable) : Ends flush c (fun _ _ => True) fun _ _ => False :=
  flushLoop_runs h

/-! ## What a connection holds -/

/-- The frames the connection holds: those that wait, and those of the packets that are
not acknowledged. -/
def Connection.frames (c : Connection) : List Frame :=
  c.transport.pendingFrames.map (·.frame) ++
    c.streams.streams.toList.flatMap (fun entry => entry.2.send.queue.map (·.frame entry.1)) ++
      c.transport.sent.toList.flatMap fun entry => entry.2.frames.map (·.frame)

theorem carries_of_frames (h : ∀ f ∈ c.frames, P f) : c.view.unsent.Carries P := by
  unfold Connection.frames at h
  refine ⟨fun q hq => h _ ?_, fun id s hs item hitem => h _ ?_, fun n sp hsp q hq => h _ ?_, nofun⟩
  · exact List.mem_append_left _ (List.mem_append_left _ (List.mem_map_of_mem hq))
  · refine List.mem_append_left _ (List.mem_append_right _ (List.mem_flatMap.2 ⟨(id, s), ?_, ?_⟩))
    · exact Std.TreeMap.mem_toList_iff_getElem?_eq_some.2 hs
    · exact List.mem_map_of_mem hitem
  · refine List.mem_append_right _ (List.mem_flatMap.2 ⟨(n, sp), ?_, ?_⟩)
    · exact Std.TreeMap.mem_toList_iff_getElem?_eq_some.2 hsp
    · exact List.mem_map_of_mem hq

/-- How many there are. -/
def Connection.stock (c : Connection) : Nat :=
  c.transport.pendingFrames.length + mapSum c.streams.streams (·.send.queue.length) +
    mapSum c.transport.sent (·.frames.length)

theorem load_le_stock (c : Connection) : c.load ≤ c.stock + 1 := by
  unfold Connection.load Connection.stock
  split <;> omega

theorem putBack_stock (frame : Frame) (count : Nat) :
    Ends (putBack frame count) c (fun _ c' => c'.stock = c.stock + 1) fun _ _ => True := by
  unfold putBack
  split
  · next d =>
      simp only [ends_onStreams, requeueData, ends_bind, ends_record, ends_modify]
      refine ⟨fun s hs => ?_, fun _ => trivial⟩
      have hsum := mapSum_insert_of_get { s with send := s.send.requeue d count }
        (·.send.queue.length) hs
      have hlen : (s.send.requeue d count).queue.length = s.send.queue.length + 1 := rfl
      unfold Connection.stock
      dsimp only [StreamManager.put] at hsum hlen ⊢
      omega
  · rw [ends_modifyTransport]
    unfold Connection.stock
    dsimp only [TransportState.queueFront]
    rw [List.length_cons]
    omega

theorem putBackAll_stock (count : Nat) (frames : List QueuedFrame) :
    Ends (putBackAll count frames) c (fun _ c' => c'.stock = c.stock + frames.length)
      fun _ _ => True := by
  induction frames generalizing c with
  | nil => rfl
  | cons q rest ih =>
      rw [putBackAll, ends_bind]
      refine (putBack_stock q.frame count).mono (fun _ c₁ h₁ => ?_) fun _ _ _ => trivial
      refine ih.mono (fun _ c₂ h₂ => ?_) fun _ _ _ => trivial
      rw [h₂, h₁, List.length_cons]
      omega

/-- All pings have one length. -/
theorem fits_ping (c : Connection) (nonce : Nat) : c.fits (.ping nonce) = c.fits (.ping 0) := by
  have hlen : varint 8 = .ok [8] := rfl
  have hencode : ∀ m : Nat, (Frame.ping m).encode = .ok (10 :: ([8] ++ beBytes 8 m)) := by
    intro m
    have hbody : (Frame.ping m).encodeBody = .ok (beBytes 8 m) := rfl
    refine Frame.encode_of_body hbody ?_ ?_
    · rw [length_beBytes]
      decide
    · rwa [length_beBytes]
  unfold Connection.fits
  rw [hencode, hencode]
  dsimp only
  simp only [List.length_cons, List.length_append, length_beBytes]
  rfl

/-! ## What a batch adds -/

theorem View.unsent_putBackAll (count : Nat) (frames : List QueuedFrame) :
    (v.putBackAll count frames).unsent = v.unsent.putBackAll count frames := by
  induction frames generalizing v with
  | nil => rfl
  | cons q rest ih =>
      have hback : (v.putBack q.frame count).unsent = v.unsent.putBack q.frame count := by
        unfold View.putBack
        split
        · next d _ =>
            have hstreams : v.unsent.streams = v.streams := rfl
            rw [hstreams]
            cases v.streams d.streamId with
            | none => rfl
            | some s => rfl
        · rfl
      rw [View.putBackAll, List.foldl_cons, View.putBackAll, List.foldl_cons, ← hback]
      exact ih

/-- The connection has what fitted before the batch, and a frame more for each of the
`n` events dealt with. -/
structure Stocked (c₀ : Connection) (n : Nat) (c : Connection) : Prop where
  config : c.config = c₀.config
  crypto : c.packetCrypto = c₀.packetCrypto
  now : c.now = c₀.now
  received : c.transport.received = c₀.transport.received
  ack : c.transport.ackPending = true → c₀.transport.ackPending = true
  carried : c.view.unsent.Carries (c₀.fits · = true)
  next : c.transport.nextPacketNumber = c₀.transport.nextPacketNumber
  stock : c.stock ≤ c₀.stock + n
  rto : c.transport.rtt.rto ≤ max c₀.transport.rtt.rto c₀.transport.rtt.maxRto
  maxRto : c.transport.rtt.maxRto = c₀.transport.rtt.maxRto

namespace Stocked

theorem start (h : ∀ f ∈ c.frames, c.fits f = true) : Stocked c 0 c :=
  ⟨rfl, rfl, rfl, rfl, id, carries_of_frames h, rfl, Nat.le_refl _, Nat.le_max_left _ _, rfl⟩

theorem succ (h : Stocked c₀ n c) : Stocked c₀ (n + 1) c :=
  { h with stock := Nat.le_succ_of_le h.stock }

/-- The timers do not matter. -/
theorem timers (h : Stocked c₀ n c) (t : TimerState) : Stocked c₀ n { c with timers := t } :=
  ⟨h.config, h.crypto, h.now, h.received, h.ack, h.carried, h.next, h.stock, h.rto, h.maxRto⟩

theorem onTimers {m : TimerM Unit} (h : Stocked c₀ n c) :
    Ends (onTimers m) c (fun _ c' => Stocked c₀ n c') fun _ _ => True := by
  rw [Core.onTimers, ends_zoom]
  exact .of_forall (fun _ t => h.timers t) fun _ _ => trivial

theorem emit (h : Stocked c₀ n c) (out : CoreOutput) : Stocked c₀ n (c.emit out) :=
  ⟨h.config, h.crypto, h.now, h.received, h.ack, h.carried.keep rfl rfl rfl rfl rfl, h.next,
    h.stock, h.rto, h.maxRto⟩

theorem setState (h : Stocked c₀ n c) (s : ConnectionState) : Stocked c₀ n (c.setState s) := by
  unfold Connection.setState
  split
  · refine Stocked.emit (c := { c with state := s }) ?_ _
    exact ⟨h.config, h.crypto, h.now, h.received, h.ack, h.carried.keep rfl rfl rfl rfl rfl, h.next,
      h.stock, h.rto, h.maxRto⟩
  · exact h

/-- A frame that fits is queued. -/
theorem queue {f : Frame} (h : Stocked c₀ n c) (hf : c₀.fits f = true) :
    Stocked c₀ (n + 1) (c.queue f) := by
  refine ⟨h.config, h.crypto, h.now, h.received, h.ack, h.carried.enqueue hf, h.next, ?_, h.rto,
    h.maxRto⟩
  have hstock := h.stock
  unfold Connection.stock at hstock ⊢
  dsimp only [Connection.queue, TransportState.queue]
  rw [List.length_append, List.length_singleton]
  omega

theorem queueFront {f : Frame} (h : Stocked c₀ n c) (hf : c₀.fits f = true) :
    Stocked c₀ (n + 1) (c.queueFront f) := by
  refine ⟨h.config, h.crypto, h.now, h.received, h.ack, h.carried.enqueueFront hf, h.next, ?_,
    h.rto, h.maxRto⟩
  have hstock := h.stock
  unfold Connection.stock at hstock ⊢
  dsimp only [Connection.queueFront, TransportState.queueFront]
  rw [List.length_cons]
  omega

theorem keepalive (h : Stocked c₀ n c) (hping : c₀.fits (.ping 0) = true) :
    Stocked c₀ (n + 1) { c with transport := c.transport.queueKeepalive } := by
  have hnonced : Stocked c₀ n { c with transport := { c.transport with
      lastPingNonce := (c.transport.lastPingNonce + 1) % 2 ^ 64 } } :=
    ⟨h.config, h.crypto, h.now, h.received, h.ack, h.carried, h.next, h.stock, h.rto, h.maxRto⟩
  exact hnonced.queue (f := .ping ((c.transport.lastPingNonce + 1) % 2 ^ 64))
    ((fits_ping c₀ _).trans hping)

end Stocked

/-- A retransmission moves frames. -/
theorem processRetransmit_stocks (h : Stocked c₀ n c) (hhoused : c.view.Housed) (m g : Nat) :
    Ends (processRetransmit m g) c (fun _ c' => Stocked c₀ n c') fun _ _ => True := by
  simp only [processRetransmit, ends_bind, ends_get]
  cases hs : c.transport.sent[m]? with
  | none => exact h
  | some packet =>
      simp only [ends_steps, ends_modifyTransport, requeueLost]
      refine ⟨fun _ => h, fun _ => ⟨fun _ => trivial, fun _ => ?_⟩⟩
      generalize hc₁ : ({ c with transport := { c.transport with
          sent := c.transport.sent.erase m
          congestion := c.transport.congestion.onLoss packet.encodedLen
          rtt := c.transport.rtt.onTimeout } } : Connection) = c₁
      have hview : c₁.view = c.view.forget m := hc₁ ▸ view_forget m _ _ c.timers
      have hless : c₁.stock + packet.frames.length = c.stock := by
        have herased := mapSum_erase (·.frames.length) hs
        subst hc₁
        unfold Connection.stock
        dsimp only at herased ⊢
        omega
      refine (Ends.and (putBackAll_runs (c := c₁) _ fun q hq d hd => ?_)
        (putBackAll_stock _ packet.frames.reverse)).mono (fun _ c₂ h₂ => ?_) fun _ _ h₂ => h₂.1.elim
      · rw [hview]
        exact hhoused m packet hs q (List.mem_reverse.1 hq) d hd
      · obtain ⟨⟨hflushes, hback⟩, hstock⟩ := h₂
        rw [List.length_reverse] at hstock
        subst hc₁
        refine ⟨hflushes.config.trans h.config, hflushes.crypto.trans h.crypto,
          hflushes.now.trans h.now, hflushes.received.trans h.received,
          fun hpending => h.ack (hflushes.ack hpending), ?_, ?_, ?_, ?_, ?_⟩
        · rw [hback, View.unsent_putBackAll, hview]
          refine (h.carried.forget m).putBackAll _ fun q hq => ?_
          exact h.carried.unacked m packet hs q (List.mem_reverse.1 hq)
        · obtain ⟨_, _, heq, _⟩ :=
            View.outward_putBackAll (c.view.forget m) (min (packet.retransmitCount + 1) u32Max)
              packet.frames.reverse
          rw [hview, heq] at hback
          exact (congrArg View.next hback).trans h.next
        · have hold := h.stock
          omega
        · rw [hflushes.rtt]
          exact (Nat.min_le_right _ _).trans (h.maxRto.le.trans (Nat.le_max_right _ _))
        · rw [hflushes.rtt]
          exact h.maxRto

/-- An event that leaves the connection open adds a frame of the connection's own at
most. -/
theorem processTimer_stocks (h : Stocked c₀ n c) (hhoused : c.view.Housed)
    (hframe : ∀ f, c.handshake.frame = some f → c₀.fits f = true)
    (hping : c₀.fits (.ping 0) = true) (hstays : c.closesAt event = false) :
    Ends (processTimer event) c (fun _ c' => Stocked c₀ (n + 1) c') fun _ _ => True := by
  cases event with
  | handshakeTimeout =>
      simp only [processTimer, ends_steps]
      refine ⟨fun hstate => ?_, fun _ => h.succ⟩
      simp only [onHandshakeTimeout, ends_steps]
      refine ⟨fun hne => absurd hstate hne, fun _ => ?_⟩
      unfold Connection.closesAt at hstays
      rw [decide_eq_true hstate, Bool.true_and, Bool.or_eq_false_iff,
        decide_eq_false_iff_not] at hstays
      obtain ⟨hstored, hleft⟩ := hstays
      cases hf : c.handshake.frame with
      | none =>
          rw [hf] at hstored
          cases hstored
      | some frame =>
          simp only [ends_steps, ends_modifyHandshake]
          refine ⟨fun hspent => absurd hspent hleft, fun _ => ?_⟩
          have hretried : Stocked c₀ n { c with
              handshake := { c.handshake with retries := min (c.handshake.retries + 1) u32Max } } :=
            ⟨h.config, h.crypto, h.now, h.received, h.ack, h.carried.keep rfl rfl rfl rfl rfl,
              h.next, h.stock, h.rto, h.maxRto⟩
          refine ((hretried.queueFront (hframe frame hf)).onTimers).mono (fun _ c' h' => ?_)
            fun _ _ _ => trivial
          exact ⟨fun hfalse => absurd hfalse Bool.false_ne_true, fun _ => h'⟩
  | retransmit m g =>
      simp only [processTimer, closeOnLimit, ends_tryCatch]
      refine (processRetransmit_stocks h hhoused m g).mono (fun _ _ h' => h'.succ) fun _ _ _ => ?_
      simp only [ends_steps]
      exact ⟨fun _ => trivial, fun _ => trivial⟩
  | ackDelay =>
      simp only [processTimer, ends_modifyTransport]
      unfold TransportState.onAckTimer
      split
      · exact ⟨h.config, h.crypto, h.now, h.received, h.ack, h.carried, h.next,
          Nat.le_succ_of_le h.stock, h.rto, h.maxRto⟩
      · exact h.succ
  | keepalive =>
      simp only [processTimer, ends_steps, ends_modifyTransport]
      refine ⟨fun _ => ?_, fun _ => ?_⟩
      · split
        · exact (h.keepalive hping).onTimers
        · exact h.keepalive hping
      · split
        · exact h.succ.onTimers
        · exact h.succ
  | idleTimeout =>
      simp only [processTimer, ends_steps]
      refine ⟨fun hopen => ?_, fun _ => h.succ⟩
      cases hstays.symm.trans hopen
  | closeTimeout =>
      simp only [processTimer, ends_modify]
      exact (((h.timers c.timers.cancelAll).setState .closed).emit _).succ

/-! ## A close that cannot fail -/

/-- What a batch sends on its own account: pings, and the close. -/
def batchFrames : List Frame :=
  [.ping 0, .connectionClose ⟨1, 0, ascii "handshake timeout"⟩,
    .connectionClose ⟨2, 0, ascii "idle timeout"⟩]

/-- A close in a batch of that many events does not fail: the wheel takes its timers,
every frame that may go out and the ACK have room in a packet, and there are packet
numbers for them. -/
def Connection.closable (c : Connection) (batch : Nat) : Bool :=
  c.canClose && c.timers.takes (max c.transport.rtt.rto c.transport.rtt.maxRto) &&
    (c.frames ++ c.handshake.frame.toList ++ batchFrames).all c.fits && c.ackFits &&
    c.transport.nextPacketNumber + c.stock + batch + 2 ≤ u64Max

namespace Connection

variable {batch : Nat}

theorem closable_fits (h : c.closable batch = true) {f : Frame}
    (hf : f ∈ c.frames ++ c.handshake.frame.toList ++ batchFrames) : c.fits f = true := by
  simp only [closable, Bool.and_eq_true] at h
  exact List.all_eq_true.1 h.1.1.2 f hf

theorem closable_stocked (h : c.closable batch = true) : Stocked c 0 c :=
  .start fun _ hf => closable_fits h (List.mem_append_left _ (List.mem_append_left _ hf))

end Connection

/-- The flush of a connection that was just closed. -/
theorem closing_flushable {batch : Nat} {c₁ : Connection} (h : Stocked c₀ (n + 1) c₁)
    (hclosable : c₀.closable batch = true) (hn : n ≤ batch) (hstate : c₁.state = .closing)
    (hapart : c₁.view.Apart) (hsound : c₁.timers.Sound)
    (htakes : ∀ delay, c₁.timers.takes delay = c₀.timers.takes delay) : c₁.Flushable := by
  simp only [Connection.closable, Bool.and_eq_true, decide_eq_true_eq] at hclosable
  obtain ⟨⟨⟨⟨_, hrto⟩, _⟩, hack⟩, hnumbers⟩ := hclosable
  have hfits : c₁.fits = c₀.fits := fits_congr h.config h.crypto
  refine ⟨hstate, hapart, ?_, ?_, ?_, ?_, hsound⟩
  · rw [hfits]
    exact h.carried
  · unfold Connection.ackFits at hack ⊢
    rw [hfits, h.received, h.now, h.config]
    cases hpending : c₁.transport.ackPending with
    | false => rfl
    | true => rwa [h.ack hpending] at hack
  · have hload := load_le_stock c₁
    have hstock := h.stock
    rw [h.next]
    omega
  · refine takes_mono hsound h.rto ?_
    rw [htakes]
    exact hrto

theorem close_runs {batch : Nat} {o : Outlook} (h : Follows c₀ o c) (hstocked : Stocked c₀ n c)
    (hclosable : c₀.closable batch = true) (hn : n ≤ batch) {code : Nat} {reason : Bytes}
    (hframe : .connectionClose ⟨code, 0, reason⟩ ∈ batchFrames) :
    Ends (close code reason) c (fun _ _ => True) fun _ _ => False := by
  have hfits := Connection.closable_fits hclosable (List.mem_append_right _ hframe)
  have hcan : c₀.canClose = true := by
    simp only [Connection.closable, Bool.and_eq_true] at hclosable
    exact hclosable.1.1.1.1
  simp only [close, ends_steps]
  refine ⟨fun _ => trivial, fun _ => ?_⟩
  generalize hc₁ : (({ c with closeError := some code }.setState .closing).queue
      (.connectionClose ⟨code, 0, reason⟩)) = c₁
  have htimers : c₁.timers = c.timers := hc₁ ▸ Connection.setState_timers _ .closing
  have hstate : c₁.state = .closing := hc₁ ▸ Connection.setState_state _ .closing
  have hclosed : Stocked c₀ (n + 1) c₁ := by
    have herror : Stocked c₀ n { c with closeError := some code } :=
      ⟨hstocked.config, hstocked.crypto, hstocked.now, hstocked.received, hstocked.ack,
        hstocked.carried, hstocked.next, hstocked.stock, hstocked.rto, hstocked.maxRto⟩
    rw [← hc₁]
    exact (herror.setState .closing).queue hfits
  have hapart : c₁.view.Apart := by
    rw [← hc₁, view_queue, view_setState]
    exact View.Apart.enqueue (h.settled.apart.keep rfl rfl) fun d => Frame.noConfusion
  rw [onTimers, ends_zoom]
  refine (sets_takes (htimers ▸ h.sound) .close c₁.config.closeTimeout).mono (fun _ t ht => ?_)
    fun _ t ht => ?_
  · obtain ⟨hsound, htakes⟩ := ht.2 (htimers ▸ h.sound)
    refine flush_runs (closing_flushable (hclosed.timers t) hclosable hn hstate hapart hsound
      fun delay => ?_)
    exact (htakes delay).trans ((congrArg (·.takes delay) htimers).trans (h.takes delay))
  · rw [htimers, h.takes, hclosed.config] at ht
    cases hcan.symm.trans ht.1

/-- **An event that closes the connection.** It is dealt with where a close cannot
fail. -/
theorem processTimer_runs {batch : Nat} {o : Outlook} (h : Follows c₀ o c)
    (hstocked : Stocked c₀ n c) (hclosable : c₀.closable batch = true) (hn : n ≤ batch)
    (hcloses : o.closes c₀ event = true) :
    Ends (processTimer event) c (fun _ _ => True) fun _ _ => False := by
  have hclosed := h.closes event
  rw [hcloses] at hclosed
  cases event with
  | handshakeTimeout =>
      simp only [processTimer, ends_steps]
      refine ⟨fun hstate => ?_, fun _ => trivial⟩
      refine (onHandshakeTimeout_foreseen h.sound hstate).mono (fun r c₁ h₁ => ?_) fun _ _ h₁ => ?_
      · obtain ⟨hr, hleft⟩ := h₁
        rw [hclosed] at hr
        subst hr
        rw [if_pos rfl] at hleft
        subst hleft
        refine ⟨fun _ => ?_, fun hfalse => absurd rfl hfalse⟩
        exact close_runs h hstocked hclosable hn (List.mem_cons_of_mem _ List.mem_cons_self)
      · unfold Outlook.refuses Outlook.resets at h₁
        rw [hclosed] at h₁
        simp only [Bool.not_true, Bool.and_false, if_neg Bool.false_ne_true] at h₁
        cases h₁
  | idleTimeout =>
      simp only [processTimer, ends_steps]
      refine ⟨fun _ => ?_, fun _ => trivial⟩
      exact close_runs h hstocked hclosable hn
        (List.mem_cons_of_mem _ (List.mem_cons_of_mem _ List.mem_cons_self))
  | _ => cases hcloses

/-! ## The batch -/

/-- The event cannot be dealt with: it is refused, or closes a connection whose close
may fail. -/
def Outlook.fails (c : Connection) (batch : Nat) (o : Outlook) (event : TimerEvent) : Bool :=
  o.refuses c event || (o.closes c event && !c.closable batch)

/-- The connection after `n` events of a batch. -/
structure Foreseen (c₀ : Connection) (batch : Nat) (o : Outlook) (n : Nat) (c : Connection) : Prop
    extends Follows c₀ o c where
  stocked : c₀.closable batch = true → o.state.rank < ConnectionState.closing.rank → Stocked c₀ n c

theorem Connection.Kept.foreseen (h : c.Kept) (batch : Nat) : Foreseen c batch c.outlook 0 c :=
  ⟨h.follows, fun hclosable _ => Connection.closable_stocked hclosable⟩

theorem next_rank {o : Outlook} (hcloses : o.closes c event = false) :
    o.state.rank ≤ (o.next c event).state.rank := by
  unfold Outlook.next
  rw [hcloses, if_neg Bool.false_ne_true]
  split
  · split <;> exact Nat.le_refl _
  · exact ConnectionState.rank_le_closed _
  · exact Nat.le_refl _

/-- **A step of the batch.** An event that does not fail is dealt with, and the
connection is what was foreseen. -/
theorem dealTimer_foreseen {batch : Nat} {o : Outlook} (h : Foreseen c₀ batch o n c)
    (hn : n < batch)
    (hnumber : ∀ m g, event = .retransmit m g → m < c₀.transport.nextPacketNumber) :
    Ends (dealTimer event) c
      (fun _ c' => o.refuses c₀ event = false ∧ Foreseen c₀ batch (o.next c₀ event) (n + 1) c')
      fun _ _ => o.fails c₀ batch event = true := by
  have hcleared : Follows c₀ o { c with timers := c.timers.clearSlot event } := h.clear event
  have hruns : c₀.closable batch = true → o.closes c₀ event = true →
      Ends (dealTimer event) c (fun _ _ => True) fun _ _ => False := by
    intro hclosable hcloses
    rw [dealTimer, ends_bind, ends_modify]
    exact processTimer_runs hcleared ((h.stocked hclosable (closes_rank hcloses)).timers _)
      hclosable (Nat.le_of_lt hn) hcloses
  have hstocks : c₀.closable batch = true →
      (o.next c₀ event).state.rank < ConnectionState.closing.rank →
      Ends (dealTimer event) c (fun _ c' => Stocked c₀ (n + 1) c') fun _ _ => True := by
    intro hclosable hrank
    cases hcloses : o.closes c₀ event with
    | true =>
        unfold Outlook.next at hrank
        rw [if_pos hcloses] at hrank
        exact absurd hrank (Nat.lt_irrefl _)
    | false =>
        rw [dealTimer, ends_bind, ends_modify]
        have hstocked := (h.stocked hclosable ((next_rank hcloses).trans_lt hrank)).timers
          (c.timers.clearSlot event)
        refine processTimer_stocks hstocked hcleared.settled.housed (fun f hf => ?_) ?_ ?_
        · refine Connection.closable_fits hclosable
            (List.mem_append_left _ (List.mem_append_right _ ?_))
          rw [← h.frame]
          exact Option.mem_toList.2 hf
        · exact Connection.closable_fits hclosable (List.mem_append_right _ List.mem_cons_self)
        · exact (hcleared.closesAt event).trans hcloses
  refine ((dealTimer_follows h.toFollows hnumber).and (Ends.run _ _)).mono (fun _ c' h' => ?_)
    fun _ c' h' => ?_
  · exact ⟨h'.1.1, h'.1.2, fun hclosable hrank => (hstocks hclosable hrank).ok h'.2⟩
  · unfold Outlook.fails
    rcases h'.1 with hrefused | hcloses
    · rw [hrefused]
      rfl
    · cases hclosable : c₀.closable batch with
      | true => exact ((hruns hclosable hcloses).error h'.2).elim
      | false =>
          rw [hcloses]
          exact Bool.or_true _

end DartUdp.Core
