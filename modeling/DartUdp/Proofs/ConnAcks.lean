import DartUdp.Proofs.ConnOnce
import DartUdp.Proofs.ConnNumbers
import DartUdp.Proofs.CodecPackets

/-!
# Acknowledging

Two things keep an ACK from going out. A packet number is a whole word in the
header and a variable-length integer of 62 bits in an ACK, so an ACK can be written
down exactly when the largest number it acknowledges is below `2 ^ 62`
(`frame_written_iff`). And 32 ranges far apart make it longer than a small datagram
has room for; `ackRoom` bytes are enough for any (`ack_written` and the header and
the tag). In both cases the ACK stays due, and no later flush gets past it.

The module is for `acks_go_out`. The ranges stay what recording made them until the
next packet is recorded, so what holds of them between two operations holds at every
flush in between: `perform_records` carries through a run that they come from
numbers within the bound, `flush_ack` is the round of the flush that sends the ACK,
and `Records.ackGoesOut` puts the two together.
-/

namespace DartUdp.Core

open DartUdp.Lib DartUdp.Udp

variable {suite : Suite} {L : Prop} {k : Cause} {c : Connection} {v v' : View} {p : Packet}
  {n : Nat} {ranges : List AckRange} {received : ReceivedPackets}

/-! ## Writing an ACK -/

/-- A number takes no more bytes than it needs. -/
theorem varint_short (t : Nat) (ht : t ≤ 3) (h : n < 2 ^ (8 * 2 ^ t - 2)) :
    ∃ out, varint n = .ok out ∧ out.length ≤ 2 ^ t := by
  have hmax : n ≤ varintMax := by
    have hpow : 2 ^ (8 * 2 ^ t - 2) ≤ 2 ^ (8 * 2 ^ 3 - 2) :=
      Nat.pow_le_pow_right (by decide)
        (Nat.sub_le_sub_right (Nat.mul_le_mul_left 8 (Nat.pow_le_pow_right (by decide) ht)) 2)
    unfold varintMax
    omega
  obtain ⟨t', _, _, hleast, hout⟩ := varint_eq hmax
  refine ⟨_, hout, ?_⟩
  rw [length_beBytes]
  exact Nat.pow_le_pow_right (by decide) (hleast t h)

theorem varint_long (h : n ≤ varintMax) : ∃ out, varint n = .ok out ∧ out.length ≤ 8 :=
  varint_short 3 le_rfl (Nat.lt_of_le_of_lt h (by decide))

theorem writeRanges_ok (h : ∀ r ∈ ranges, r.start ≤ varintMax ∧ r.stop ≤ varintMax) :
    ∃ out, writeRanges ranges = .ok out ∧ out.length ≤ 16 * ranges.length := by
  induction ranges with
  | nil => exact ⟨[], rfl, Nat.zero_le _⟩
  | cons range rest ih =>
      obtain ⟨hstart, hstop⟩ := h range List.mem_cons_self
      obtain ⟨start, hstart, hlen⟩ := varint_long hstart
      obtain ⟨stop, hstop, hlen'⟩ := varint_long hstop
      obtain ⟨out, hout, hlen''⟩ := ih fun r hr => h r (List.mem_cons_of_mem _ hr)
      refine ⟨start ++ stop ++ out, ?_, ?_⟩
      · rw [writeRanges, bind_of_ok hstart, bind_of_ok hstop, bind_of_ok hout]
        rfl
      · simp only [List.length_append, List.length_cons]
        omega

theorem encodeRanges_ok (hcount : ranges.length ≤ maxAckRanges)
    (h : ∀ r ∈ ranges, r.start ≤ varintMax ∧ r.stop ≤ varintMax) :
    ∃ out, encodeRanges ranges = .ok out ∧ out.length ≤ 513 := by
  have hsmall : ranges.length ≤ 32 := hcount
  obtain ⟨count, hlength, hlen⟩ :=
    varint_short 0 (by decide) (Nat.lt_of_le_of_lt hsmall (by decide))
  obtain ⟨out, hout, hlen'⟩ := writeRanges_ok h
  refine ⟨count ++ out, ?_, ?_⟩
  · rw [encodeRanges]
    dsimp only
    rw [if_neg (Nat.not_lt.2 hcount), bind_of_ok hlength, bind_of_ok hout]
    rfl
  · rw [List.length_append]
    omega

/-- An ACK whose numbers are variable-length integers is written down, in at most
532 bytes. -/
theorem ack_written {a : AckFrame} (hvalid : a.validate = .ok ())
    (hlargest : a.largest ≤ varintMax) (hdelay : asMicros a.ackDelay ≤ varintMax)
    (hcount : a.ranges.length ≤ maxAckRanges)
    (h : ∀ r ∈ a.ranges, r.start ≤ varintMax ∧ r.stop ≤ varintMax) :
    ∃ bytes, (Frame.ack a).encode = .ok bytes ∧ bytes.length ≤ 532 := by
  obtain ⟨largest, hlargest, hlen⟩ := varint_long hlargest
  obtain ⟨delay, hdelay, hlen'⟩ := varint_long hdelay
  obtain ⟨out, hout, hlen''⟩ := encodeRanges_ok hcount h
  have hbody : (Frame.ack a).encodeBody = .ok (largest ++ delay ++ out) := by
    show a.encode = _
    rw [AckFrame.encode, bind_of_ok hvalid, bind_of_ok hlargest, bind_of_ok hdelay,
      bind_of_ok hout]
    rfl
  have hshort : (largest ++ delay ++ out).length ≤ 529 := by
    simp only [List.length_append]
    omega
  obtain ⟨len, hvarint, hlen⟩ := varint_short 1 (by decide) (Nat.lt_of_le_of_lt hshort (by decide))
  refine ⟨_, Frame.encode_of_body hbody (hshort.trans (by decide)) hvarint, ?_⟩
  simp only [List.length_cons, List.length_append] at hshort ⊢
  omega

/-- What is written down was a variable-length integer. -/
theorem ack_written_inv {a : AckFrame} {bytes : Bytes} (h : (Frame.ack a).encode = .ok bytes) :
    a.largest ≤ varintMax ∧ asMicros a.ackDelay ≤ varintMax := by
  obtain ⟨body, _, hbody, _⟩ := Frame.encode_inv h
  have hbody : a.encode = .ok body := hbody
  obtain ⟨_, _, hbody⟩ := ok_of_bind hbody
  obtain ⟨_, hlargest, hbody⟩ := ok_of_bind hbody
  obtain ⟨_, hdelay, _⟩ := ok_of_bind hbody
  exact ⟨varint_le hlargest, varint_le hdelay⟩

/-! ## The frame of some ranges -/

theorem frame_inv {now ackDelay : Nat} {a : AckFrame} (h : Descending received.ranges)
    (hcount : received.ranges.length ≤ maxAckRanges)
    (hframe : received.frame now ackDelay = .ok (some a)) :
    a.validate = .ok () ∧ a.ranges = received.ranges ∧
      received.ranges.head?.map (·.stop) = some a.largest := by
  unfold ReceivedPackets.frame at hframe
  split at hframe
  · cases hframe
  · next hne =>
      have hne : received.ranges ≠ [] := fun hnil => hne (List.isEmpty_iff.2 hnil)
      obtain ⟨ranges, hranges, hframe⟩ := ok_of_bind hframe
      cases hranges.symm.trans (ackRanges_of_descending h hne hcount)
      obtain ⟨a', hnew, hsome⟩ := ok_of_bind hframe
      obtain rfl : a' = a := Option.some.inj (Except.ok.inj hsome)
      cases hranges : received.ranges with
      | nil => exact absurd hranges hne
      | cons first rest =>
          rw [hranges] at hnew
          obtain ⟨_, hvalid, hnew⟩ := ok_of_bind hnew
          cases hnew
          exact ⟨hvalid, rfl, rfl⟩

/-- The ACK of some ranges is written down exactly when it acknowledges nothing
above the variable-length integers. -/
theorem frame_written_iff {now ackDelay : Nat} {a : AckFrame} (h : Descending received.ranges)
    (hcount : received.ranges.length ≤ maxAckRanges)
    (hframe : received.frame now ackDelay = .ok (some a)) :
    (∃ bytes, (Frame.ack a).encode = .ok bytes ∧ bytes.length ≤ 532) ↔
      (∀ n, received.contains n = true → n ≤ varintMax) ∧ asMicros a.ackDelay ≤ varintMax := by
  obtain ⟨hvalid, hranges, hhead⟩ := frame_inv h hcount hframe
  obtain ⟨hin, hmax⟩ := h.head_iff.1 hhead
  constructor
  · intro hwritten
    obtain ⟨bytes, hbytes, _⟩ := hwritten
    obtain ⟨hlargest, hdelay⟩ := ack_written_inv hbytes
    exact ⟨fun n hn => (hmax n hn).trans hlargest, hdelay⟩
  · intro hbounds
    obtain ⟨hbound, hdelay⟩ := hbounds
    refine ack_written hvalid (hbound _ hin) hdelay (hranges ▸ hcount) fun r hr => ?_
    have hr : r ∈ received.ranges := hranges ▸ hr
    have hvalid := (h.valid r hr).1
    have hstop := hbound r.stop (List.any_eq_true.2 ⟨r, hr, by
      simp only [AckRange.contains, Bool.and_eq_true, decide_eq_true_eq]
      exact ⟨hvalid, le_rfl⟩⟩)
    exact ⟨hvalid.trans hstop, hstop⟩

/-! ## Over every run -/

/-- A packet that is recorded has no number above the bound. -/
def NumbersUpTo (suite : Suite) (bound : Nat) (c : Connection) (op : Op) : Prop :=
  ∀ p, delivered suite c op = some p → Lands c p → p.packetNumber ≤ bound

/-- The ranges come from recording numbers up to the bound. -/
def Records (bound : Nat) (ranges : List AckRange) : Prop :=
  ∃ numbers, Reflects ⟨ranges, none⟩ numbers ∧ ∀ n ∈ numbers, n ≤ bound

/-- When the largest number came in makes no difference. -/
theorem Reflects.whenever {numbers : List Nat} (h : Reflects ⟨received.ranges, none⟩ numbers) :
    Reflects received numbers := ⟨h.descending, h.length, h.only, h.bounded⟩

theorem Records.record {bound now : Nat} {receivedAt : Option Nat} (h : Records bound ranges)
    (hn : n ≤ bound) (hbound : bound ≤ u64Max) :
    Records bound (ReceivedPackets.record ⟨ranges, receivedAt⟩ n now).2.ranges := by
  obtain ⟨numbers, hreflects, hnumbers⟩ := h
  have hreflects : Reflects ⟨ranges, receivedAt⟩ numbers := hreflects.whenever
  have hrecord := hreflects.record now (hn.trans hbound)
  refine ⟨numbers ++ [n], ⟨hrecord.descending, hrecord.length, hrecord.only, hrecord.bounded⟩,
    fun m hm => ?_⟩
  rcases List.mem_append.1 hm with hm | hm
  · exact hnumbers m hm
  · rw [List.mem_singleton.1 hm]
    exact hn

theorem Edits.records {bound : Nat} (hbound : bound ≤ u64Max) (e : Edits suite L k v v')
    (hk : ∀ p, k = .packet p → p.packetType ≠ .retry → p.packetNumber ≤ bound)
    (hv : Records bound v.received) : Records bound v'.received := by
  induction e with
  | refl => exact hv
  | tail _ e ih =>
      rcases e.received with hsame | ⟨p, now, receivedAt, hp, htype, hranges⟩
      · rw [hsame]
        exact ih
      · rw [hranges]
        exact ih.record (hk p hp htype) hbound

/-- A packet that is no Retry and is not for this connection changes nothing that
was received. -/
theorem onDatagram_ignored (suite : Suite) (h : ¬ Lands c p) (htype : p.packetType ≠ .retry) :
    (after (onDatagram suite p) c).view.received = c.view.received := by
  have hends := receivePacket_ends (c := c) p
  rw [onDatagram_eq]
  unfold after
  cases hrun : receivePacket p c with
  | error e c₁ =>
      rw [bind_error hrun]
      show c₁.transport.received.ranges = _
      rw [hends.error hrun]
      rfl
  | ok isNew c₁ =>
      obtain ⟨hstate, hid, _⟩ := hends.ok hrun
      exact absurd ⟨hstate, hid, htype⟩ h

/-- An operation keeps the numbers up to the bound. -/
theorem perform_records (suite : Suite) {bound : Nat} (hbound : bound ≤ u64Max) {op : Op}
    (h : NumbersUpTo suite bound c op) (hc : Records bound c.view.received) :
    Records bound (after (perform suite op) c).view.received := by
  -- A packet that lands is within the bound; one that does not changes nothing.
  by_cases hignored : ∃ p, delivered suite c op = some p ∧ ¬ Lands c p ∧ p.packetType ≠ .retry
  · obtain ⟨p, hp, hlands, htype⟩ := hignored
    have hsame : (after (perform suite op) c).view.received = c.view.received := by
      cases op with
      | onDatagram q =>
          cases hp
          have hafter : after (perform suite (.onDatagram p)) c = after (onDatagram suite p) c :=
            after_bind_pure ..
          rw [hafter]
          exact onDatagram_ignored suite hlands htype
      | onDatagramBytes bytes =>
          have hafter : after (perform suite (.onDatagramBytes bytes)) c =
              after (onDatagramBytes suite bytes) c := after_bind_pure ..
          rw [hafter]
          have hdecoded : answer (decodeDatagram suite bytes) c = some p := hp
          cases hrun : decodeDatagram suite bytes c with
          | error e c₁ =>
              unfold answer at hdecoded
              rw [hrun] at hdecoded
              cases hdecoded
          | ok q c₁ =>
              unfold answer at hdecoded
              rw [hrun] at hdecoded
              cases hdecoded
              have hview := (decodeDatagram_ends (c := c) suite bytes).ok hrun
              have hthen : after (onDatagramBytes suite bytes) c =
                  after (onDatagram suite p) c₁ := by
                unfold after onDatagramBytes
                rw [bind_ok hrun]
              rw [hthen, ← hview]
              refine onDatagram_ignored suite (fun hlands' => hlands ⟨?_, ?_, htype⟩) htype
              · exact hlands'.1 ∘ (congrArg View.state hview).trans
              · exact hlands'.2.1.trans (congrArg View.id hview)
      | _ => cases hp
    rw [hsame]
    exact hc
  · refine (perform_edits suite op c).records hbound (fun p hp htype => ?_) hc
    have hp := cause_packet hp
    refine h p hp ?_
    by_contra hlands
    exact hignored ⟨p, hp, hlands, htype⟩

/-! ## Sending the ACK -/

/-- The longest ACK that is written down, in its packet. -/
def ackRoom : Nat := fixedHeaderLen + 532 + aeadTagLen

/-- A frame that can be written down and that a datagram has room for has a length
on the wire. -/
theorem encodedLen_of_encode {candidate : Candidate} {bytes : Bytes}
    (hbytes : candidate.outbound.encode = .ok bytes) (hshort : bytes.length ≤ 0xffff)
    (hroom : fixedHeaderLen + bytes.length +
      (if c.encrypts (candidate.packetType c.state) then aeadTagLen else 0) ≤
        c.config.maxDatagramSize) :
    ∃ len, c.encodedLen (c.packetFor candidate) = .ok len := by
  have hwrite : writeFrames [candidate.outbound] = .ok (bytes ++ []) := by
    rw [writeFrames, bind_of_ok hbytes]
    rfl
  rw [List.append_nil] at hwrite
  have hpayload : encodeFrames (c.packetFor candidate) = .ok bytes :=
    encodeFrames_of (List.cons_ne_nil _ _) (by decide : 1 ≤ maxFrameCount) hwrite hshort
  have hflag : (c.packetFor candidate).flags.contains encryptedFlag = false := by
    unfold Connection.packetFor
    dsimp only
    split
    · decide
    · decide
  obtain ⟨datagram, hpacket, hlen⟩ := encodePacket_length hflag hpayload
    (show fixedHeaderLen + bytes.length ≤ c.config.maxDatagramSize by omega)
  have htype : (c.packetFor candidate).packetType = candidate.packetType c.state := rfl
  unfold Connection.encodedLen
  rw [hpacket]
  dsimp only
  rw [hlen, htype, if_neg]
  · exact ⟨_, rfl⟩
  · split
    · next h =>
        rw [if_pos h] at hroom
        omega
    · next h =>
        rw [if_neg h] at hroom
        omega

/-- A flush in which an ACK is due sends it, and then is a flush in which none is. -/
theorem flush_ack {a : AckFrame} {len next : Nat}
    (hdue : (c.transport.ackPending && c.transport.ackReady) = true)
    (hframe : c.transport.received.frame c.now c.config.ackDelay = .ok (some a))
    (hlen : c.encodedLen (c.packetFor (.ack a)) = .ok len)
    (hnext : checkedAdd c.transport.nextPacketNumber 1 = some next) :
    ∃ c', flush c = flush c' ∧ c'.transport.ackPending = false ∧
      c'.transport.pendingFrames = c.transport.pendingFrames ∧ c'.streams = c.streams ∧
      c'.output = c.output ++ [.send (c.packetFor (.ack a))] := by
  have htake : Ends takeCandidate c (fun r c' => r = some (.ack a) ∧ c' = c) fun _ _ => False := by
    simp only [takeCandidate, ends_steps, ends_ofExcept]
    refine ⟨fun _ => ⟨fun r hr => ?_, fun e he => ?_⟩, fun hnot => absurd hdue hnot⟩
    · cases hframe.symm.trans hr
      exact ⟨rfl, trivial⟩
    · cases hframe.symm.trans he
  have hends : Ends flushOnce c
      (fun goesOn c' => goesOn = true ∧ c'.transport.ackPending = false ∧
        c'.transport.pendingFrames = c.transport.pendingFrames ∧ c'.streams = c.streams ∧
        c'.output = c.output ++ [.send (c.packetFor (.ack a))]) fun _ _ => False := by
    rw [flushOnce, ends_bind]
    refine htake.mono (fun r c₁ h => ?_) fun _ _ h => h
    obtain ⟨rfl, rfl⟩ := h
    have hquiet : ¬ ((Candidate.ack a).outbound.isAckEliciting &&
        !c₁.transport.congestion.canSend len) = true := Bool.false_ne_true
    simp only [ends_bind, ends_get, ends_ofExcept, hlen, hnext]
    refine ⟨fun len' heq => ?_, fun e he => by cases he⟩
    cases heq
    rw [if_neg hquiet]
    exact ⟨rfl, rfl, rfl, rfl, rfl⟩
  obtain ⟨goesOn, c', hrun, hgoes, hrest⟩ := hends.returns
  rw [hgoes] at hrun
  refine ⟨c', ?_, hrest⟩
  -- One round is done, and the rounds that are left are more than enough.
  have hless : c'.load < c.load := flushOnce_load.ok hrun rfl
  have hfuel := load_lt_flushFuel c
  obtain ⟨rounds, hrounds⟩ : ∃ rounds, c.flushFuel = rounds + 1 :=
    Nat.exists_eq_succ_of_ne_zero (by omega)
  show flushLoop c.flushFuel c = flushLoop c'.flushFuel c'
  rw [hrounds, flushLoop, bind_ok hrun, if_pos rfl]
  exact flushLoop_enough rounds _ (by omega) (load_lt_flushFuel c')

/-- The ACK of what was received can be built and written down, and a flush in
which it is due sends it. -/
def Connection.AckGoesOut (c : Connection) : Prop :=
  ∃ built, c.transport.received.frame c.now c.config.ackDelay = .ok built ∧ ∀ a ∈ built,
    ∃ bytes, (Frame.ack a).encode = .ok bytes ∧ bytes.length ≤ 532 ∧
      ((c.transport.ackPending && c.transport.ackReady) = true →
        c.transport.nextPacketNumber < u64Max →
        ∃ c', flush c = flush c' ∧ c'.transport.ackPending = false ∧
          c'.transport.pendingFrames = c.transport.pendingFrames ∧ c'.streams = c.streams ∧
          c'.output = c.output ++ [.send (c.packetFor (.ack a))])

theorem Records.ackGoesOut (h : Records varintMax c.view.received)
    (hdelay : asMicros c.config.ackDelay ≤ varintMax)
    (hroom : ackRoom ≤ c.config.maxDatagramSize) : c.AckGoesOut := by
  obtain ⟨numbers, hreflects, hnumbers⟩ := h
  have hreflects : Reflects c.transport.received numbers := hreflects.whenever
  have hcount : c.transport.received.ranges.length ≤ maxAckRanges := hreflects.length
  have hbound : ∀ n, c.transport.received.contains n = true → n ≤ varintMax := fun n hn =>
    hnumbers n (hreflects.only n hn)
  by_cases hne : c.transport.received.ranges = []
  · refine ⟨none, ?_, nofun⟩
    unfold ReceivedPackets.frame
    rw [hne]
    rfl
  · obtain ⟨a, hframe, _, _, hle, _⟩ := @frame_of_descending _ hreflects.descending hne
      hcount c.now _ (hdelay.trans (by decide))
    refine ⟨some a, hframe, fun a' ha => ?_⟩
    cases ha
    have hmicros : asMicros a.ackDelay ≤ varintMax := (Nat.div_le_div_right hle).trans hdelay
    obtain ⟨bytes, hbytes, hshort⟩ :=
      (frame_written_iff hreflects.descending hcount hframe).2 ⟨hbound, hmicros⟩
    refine ⟨bytes, hbytes, hshort, fun hdue hlast => ?_⟩
    have hfits : fixedHeaderLen + bytes.length + (if c.encrypts .data then aeadTagLen else 0) ≤
        c.config.maxDatagramSize := by
      refine (Nat.add_le_add (Nat.add_le_add_left hshort _) ?_).trans hroom
      split
      · exact le_rfl
      · exact Nat.zero_le _
    have hlen : ∃ len, c.encodedLen (c.packetFor (.ack a)) = .ok len :=
      encodedLen_of_encode hbytes (by omega) hfits
    obtain ⟨len, hlen⟩ := hlen
    exact flush_ack hdue hframe hlen (if_pos hlast)

/-- After every run, the ACK of what was received can be written down exactly when
no number in it is above the variable-length integers; and where no such number was
ever recorded, it goes out at every flush until the next packet is recorded, as long
as the datagrams in force have room for any ACK. -/
theorem acks_go_out {role : ConnectionRole} {config : ConnectionConfig}
    (hfresh : Fresh suite role config c) (ops : List Op) :
    let received := (final suite c ops).transport.received
    (Meets (fun c op => after (perform suite op) c) (NumbersUpTo suite u64Max) c ops →
      ∀ now a, received.frame now config.ackDelay = .ok (some a) →
        ((∃ bytes, (Frame.ack a).encode = .ok bytes ∧ bytes.length ≤ 532) ↔
          (∀ n, received.contains n = true → n ≤ varintMax) ∧ asMicros a.ackDelay ≤ varintMax)) ∧
    (Meets (fun c op => after (perform suite op) c) (NumbersUpTo suite varintMax) c ops →
      asMicros config.ackDelay ≤ varintMax →
      ∀ c' : Connection, c'.transport.received = received → c'.config.ackDelay = config.ackDelay →
        ackRoom ≤ c'.config.maxDatagramSize → c'.AckGoesOut) := by
  intro received
  have hrun : ∀ bound, bound ≤ u64Max →
      Meets (fun c op => after (perform suite op) c) (NumbersUpTo suite bound) c ops →
      Records bound received.ranges := by
    intro bound hbound hmeets
    have hstart : Records bound c.view.received := by
      obtain ⟨_, id, handshake, _, hmade⟩ := fresh_edits hfresh
      exact hmade.records hbound (fun _ hk => nomatch hk)
        ⟨[], reflects_new, fun _ hn => absurd hn List.not_mem_nil⟩
    exact hmeets.run (I := fun c : Connection => Records bound c.view.received) hstart
      fun c op hc hop => perform_records suite hbound hop hc
  refine ⟨fun hmeets now a hframe => ?_, fun hmeets hdelay c' hreceived hconfig hroom => ?_⟩
  · obtain ⟨numbers, hreflects, _⟩ := hrun u64Max le_rfl hmeets
    exact frame_written_iff hreflects.descending hreflects.length hframe
  · refine Records.ackGoesOut ?_ (hconfig ▸ hdelay) hroom
    show Records varintMax c'.transport.received.ranges
    rw [hreceived]
    exact hrun varintMax (by decide) hmeets

/-- A server that has received one packet acknowledges it. -/
theorem acks_go_out_after_pong : ∃ c, Fresh sampleSuite .server {} c ∧
    (after (perform sampleSuite (pongPacket 5)) c).AckGoesOut := by
  obtain ⟨c, hc, hp⟩ := of_checks (r := sampleConnection .server {})
    (p := fun c => decide ((after (perform sampleSuite (pongPacket 5)) c).config.ackDelay =
        ({} : ConnectionConfig).ackDelay ∧
      ackRoom ≤ (after (perform sampleSuite (pongPacket 5)) c).config.maxDatagramSize))
    (by decide +kernel)
  obtain ⟨hdelay, hroom⟩ := of_decide_eq_true hp
  have hfresh := sampleConnection_fresh hc
  refine ⟨c, hfresh, (acks_go_out hfresh [pongPacket 5]).2 ⟨fun p hp _ => ?_, trivial⟩ (by decide)
    _ rfl hdelay hroom⟩
  cases hp
  decide

/-- The ACK of what was received cannot be sent when its time comes, and from then
on nothing can: neither at a later flush nor in answer to the client. -/
def wedges (suite : Suite) (error : CoreError) (c : Connection) : Bool :=
  let wedged := after (perform suite (.advanceTime 30000000)) c
  failure (perform suite (.advanceTime 30000000)) c = some error &&
    failure (perform suite (.advanceTime 0)) wedged = some error &&
    (samplePackets.take 1).all fun p =>
      failure (perform suite (.onDatagram p)) wedged = some error

/-- Forty packets whose numbers are far apart. -/
def spreadPongs : List Op := (List.range 40).map fun i => pongPacket (2 ^ 61 + 2 * i)

/-- **Acknowledging wedges.** A packet with the number `2 ^ 62` cannot be
acknowledged: the flush of the ACK fails, and so does every later one, also that of
an answer to the client. Nor can packets with smaller numbers where the datagrams
are small and the numbers far apart. -/
theorem acks_wedge :
    (∃ c, Fresh sampleSuite .server {} c ∧
      wedges sampleSuite (.protocol .varIntOverflow)
        (after (perform sampleSuite (pongPacket (2 ^ 62))) c)) ∧
    ∃ c, Fresh sampleSuite .server { maxDatagramSize := 300 } c ∧
      wedges sampleSuite (.protocol (.datagramTooLarge 300 558))
        (final sampleSuite c spreadPongs) := by
  refine ⟨?_, ?_⟩
  · obtain ⟨c, hc, hp⟩ := of_checks (r := sampleConnection .server {})
      (p := fun c => wedges sampleSuite (.protocol .varIntOverflow)
        (after (perform sampleSuite (pongPacket (2 ^ 62))) c)) (by decide +kernel)
    exact ⟨c, sampleConnection_fresh hc, hp⟩
  · obtain ⟨c, hc, hp⟩ := of_checks (r := sampleConnection .server { maxDatagramSize := 300 })
      (p := fun c => wedges sampleSuite (.protocol (.datagramTooLarge 300 558))
        (final sampleSuite c spreadPongs)) (by decide +kernel)
    exact ⟨c, sampleConnection_fresh hc, hp⟩

end DartUdp.Core
