import DartUdp.Lib.MapSum
import DartUdp.Proofs.ConnEdits
import DartUdp.Proofs.ConnTimers

/-!
# The books of loss recovery

Three things are kept for a packet that is not acknowledged: its entry, its
length in the bytes in flight, and its timer. Sending enters all three; an ACK,
a later ACK that overtakes it and its own timer take all three off. The counter
of the bytes in flight saturates, so it is only right while the sum fits.

`Posts` says that a call keeps the books, and there is a lemma for each function;
most of them are `Quiet`, which is to say that they leave the books alone. The next
module carries the books through a run.
-/

namespace DartUdp.Core

open DartUdp.Lib DartUdp.Udp

variable {suite : Suite} {α β : Type} {c c' : Connection} {config : ConnectionConfig}
  {due rest : List TimerEvent}

/-! ## The counters -/

/-- The packets that are not acknowledged, by number. -/
def TransportState.entry (t : TransportState) (n : Nat) : Option SentPacket := t.sent[n]?

/-- The window is within its limits, no packet was sent beyond it, and the counter
is what the packets amount to, unless they were once more than it can hold. -/
structure Balanced (config : ConnectionConfig) (t : TransportState) : Prop where
  floor : t.congestion.minCwnd = config.minCongestionWindow
  ceiling : t.congestion.maxCwnd = config.maxCongestionWindow
  order : config.minCongestionWindow ≤ config.maxCongestionWindow
  range : config.maxCongestionWindow ≤ u64Max
  lower : config.minCongestionWindow ≤ t.congestion.cwnd
  upper : t.congestion.cwnd ≤ config.maxCongestionWindow
  bound : ∀ n p, t.sent[n]? = some p → n < t.nextPacketNumber
  numbers : ∀ (n : Nat) (p : SentPacket), t.sent[n]? = some p → p.packetNumber = n
  counted : t.congestion.bytesInFlight ≤ u64Max
  exact : t.congestion.bytesInFlight = t.sentBytes ∨
    u64Max ≤ config.maxCongestionWindow ∧ ∃ load ∈ t.loads, u64Max < load.held
  loads : ∀ load ∈ t.loads, load.flight ≤ load.cwnd

namespace Balanced

variable {t t' : TransportState} {n : Nat} {p : SentPacket}

theorem keep (h : Balanced config t) (hs : t'.sent = t.sent) (hc : t'.congestion = t.congestion)
    (hn : t.nextPacketNumber ≤ t'.nextPacketNumber) (hl : t'.loads = t.loads) :
    Balanced config t' := by
  have hsent : t'.sentBytes = t.sentBytes := by
    unfold TransportState.sentBytes
    rw [hs]
  refine ⟨?_, ?_, h.order, h.range, ?_, ?_, ?_, ?_, ?_, ?_, ?_⟩
  · rw [hc]
    exact h.floor
  · rw [hc]
    exact h.ceiling
  · rw [hc]
    exact h.lower
  · rw [hc]
    exact h.upper
  · rw [hs]
    exact fun n p hp => (h.bound n p hp).trans_le hn
  · rw [hs]
    exact h.numbers
  · rw [hc]
    exact h.counted
  · rw [hc, hsent, hl]
    exact h.exact
  · rw [hl]
    exact h.loads

/-- A packet is taken off: the window moves within its limits, and its length
goes off the bytes in flight. -/
theorem take (h : Balanced config t) (hp : t.sent[n]? = some p) (hs : t'.sent = t.sent.erase n)
    (hn : t'.nextPacketNumber = t.nextPacketNumber) (hl : t'.loads = t.loads)
    (hmin : t'.congestion.minCwnd = t.congestion.minCwnd)
    (hmax : t'.congestion.maxCwnd = t.congestion.maxCwnd)
    (hlow : config.minCongestionWindow ≤ t'.congestion.cwnd)
    (hup : t'.congestion.cwnd ≤ config.maxCongestionWindow)
    (hflight : t'.congestion.bytesInFlight = t.congestion.bytesInFlight - p.encodedLen) :
    Balanced config t' := by
  have hsum : t'.sentBytes + p.encodedLen = t.sentBytes := by
    unfold TransportState.sentBytes
    rw [hs]
    exact mapSum_erase (·.encodedLen) hp
  have hcounted := h.counted
  have hold : ∀ m q, t'.sent[m]? = some q → t.sent[m]? = some q := fun m q hq => by
    rw [hs, Std.TreeMap.getElem?_erase] at hq
    split at hq
    · cases hq
    · exact hq
  refine ⟨hmin.trans h.floor, hmax.trans h.ceiling, h.order, h.range, hlow, hup, fun m q hq => ?_,
    fun m q hq => h.numbers m q (hold m q hq), ?_, ?_, ?_⟩
  · rw [hn]
    exact h.bound m q (hold m q hq)
  · omega
  · rw [hl, hflight]
    exact h.exact.imp_left fun heq => by omega
  · rw [hl]
    exact h.loads

/-- A packet that is acknowledged. -/
theorem acked (h : Balanced config t) (hp : t.sent[n]? = some p) (hs : t'.sent = t.sent.erase n)
    (hn : t'.nextPacketNumber = t.nextPacketNumber) (hl : t'.loads = t.loads)
    (hc : t'.congestion = t.congestion.onAcked p.encodedLen) : Balanced config t' := by
  obtain ⟨increment, hcwnd⟩ : ∃ increment, (t.congestion.onAcked p.encodedLen).cwnd =
      min (saturatingAdd t.congestion.cwnd increment) config.maxCongestionWindow := by
    rw [← h.ceiling]
    exact ⟨_, rfl⟩
  have hrange := h.range
  have hlower := h.lower
  have hupper := h.upper
  unfold saturatingAdd at hcwnd
  refine h.take hp hs hn hl ?_ ?_ ?_ ?_ ?_
  all_goals rw [hc]
  · rfl
  · rfl
  · omega
  · omega
  · rfl

/-- A packet that is taken for lost. -/
theorem lost (h : Balanced config t) (hp : t.sent[n]? = some p) (hs : t'.sent = t.sent.erase n)
    (hn : t'.nextPacketNumber = t.nextPacketNumber) (hl : t'.loads = t.loads)
    (hc : t'.congestion = t.congestion.onLoss p.encodedLen) : Balanced config t' := by
  have hcwnd : (t.congestion.onLoss p.encodedLen).cwnd =
      max (t.congestion.cwnd / 2) config.minCongestionWindow := by
    rw [← h.floor]
    rfl
  have horder := h.order
  have hupper := h.upper
  refine h.take hp hs hn hl ?_ ?_ ?_ ?_ ?_
  all_goals rw [hc]
  · rfl
  · rfl
  · rw [hcwnd]
    exact Nat.le_max_right _ _
  · rw [hcwnd]
    omega
  · rfl

theorem weigh (h : Balanced config t) (hload : t.congestion.bytesInFlight ≤ t.congestion.cwnd) :
    Balanced config t.weigh := by
  refine ⟨h.floor, h.ceiling, h.order, h.range, h.lower, h.upper, h.bound, h.numbers, h.counted,
    ?_, fun load hmem => ?_⟩
  · refine h.exact.imp_right fun ⟨hmax, load, hmem, hover⟩ => ⟨hmax, load, ?_, hover⟩
    exact List.mem_append_left _ hmem
  · rcases List.mem_append.1 hmem with hmem | hmem
    · exact h.loads load hmem
    · rw [List.mem_singleton.1 hmem]
      exact hload

/-- A packet that goes out within the window, is entered, and its load noted. The
counter saturates only on a packet whose load is more than it can hold. -/
theorem sent (h : Balanced config t) (hnumber : p.packetNumber = t.nextPacketNumber)
    (hwindow : t.congestion.canSend p.encodedLen = true)
    (hs : t'.sent = t.sent.insert t.nextPacketNumber p)
    (hn : t'.nextPacketNumber = t.nextPacketNumber + 1)
    (hl : t'.loads = t.loads) (hc : t'.congestion = t.congestion.onSent p.encodedLen) :
    Balanced config t'.weigh := by
  have hp : t.sent[t.nextPacketNumber]? = none := by
    cases hp : t.sent[t.nextPacketNumber]? with
    | none => rfl
    | some p => exact absurd (h.bound _ p hp) (Nat.lt_irrefl _)
  have hsum : t'.sentBytes = t.sentBytes + p.encodedLen := by
    unfold TransportState.sentBytes
    rw [hs]
    exact mapSum_insert_of_none p (·.encodedLen) hp
  have hfits : saturatingAdd t.congestion.bytesInFlight p.encodedLen ≤ t.congestion.cwnd :=
    of_decide_eq_true hwindow
  have hflight : t'.congestion.bytesInFlight =
      saturatingAdd t.congestion.bytesInFlight p.encodedLen := by
    rw [hc]
    rfl
  have hcwnd : t'.congestion.cwnd = t.congestion.cwnd := by
    rw [hc]
    rfl
  have hupper := h.upper
  unfold saturatingAdd at hflight hfits
  refine ⟨?_, ?_, h.order, h.range, ?_, ?_, fun m q hq => ?_, fun m q hq => ?_, ?_, ?_, ?_⟩
  · show t'.congestion.minCwnd = _
    rw [hc]
    exact h.floor
  · show t'.congestion.maxCwnd = _
    rw [hc]
    exact h.ceiling
  · exact hcwnd ▸ h.lower
  · exact hcwnd ▸ hupper
  · have hq : t'.sent[m]? = some q := hq
    rw [hs, Std.TreeMap.getElem?_insert] at hq
    show m < t'.nextPacketNumber
    rw [hn]
    split at hq
    · next heq => exact (Std.compare_eq_iff_eq.1 heq) ▸ Nat.lt_succ_self _
    · exact Nat.lt_succ_of_lt (h.bound m q hq)
  · have hq : t'.sent[m]? = some q := hq
    rw [hs, Std.TreeMap.getElem?_insert] at hq
    split at hq
    · next heq =>
        cases hq
        exact hnumber.trans (Std.compare_eq_iff_eq.1 heq)
    · exact h.numbers m q hq
  · show t'.congestion.bytesInFlight ≤ u64Max
    omega
  · show t'.congestion.bytesInFlight = t'.sentBytes ∨ _ ∧ ∃ load ∈ t'.loads ++ [_], _
    rw [hl]
    rcases h.exact with heq | ⟨hmax, load, hmem, hover⟩
    · by_cases hheld : t'.sentBytes ≤ u64Max
      · left
        omega
      · refine .inr ⟨?_, _, List.mem_append_right _ (List.mem_singleton.2 rfl), ?_⟩
        · omega
        · exact Nat.lt_of_not_le hheld
    · exact .inr ⟨hmax, load, List.mem_append_left _ hmem, hover⟩
  · show ∀ load ∈ t'.loads ++ [_], _
    rw [hl]
    intro load hmem
    rcases List.mem_append.1 hmem with hmem | hmem
    · exact h.loads load hmem
    · rw [List.mem_singleton.1 hmem]
      show t'.congestion.bytesInFlight ≤ t'.congestion.cwnd
      omega

end Balanced

/-! ## The books of a connection -/

/-- The counters are right, and so are the timers unless the connection is
closed; the events in `due` are still to be handled. -/
structure Ledger (config : ConnectionConfig) (due : List TimerEvent) (c : Connection) : Prop where
  balanced : Balanced config c.transport
  timed : c.state ≠ .closed →
    Timed c.transport.entry c.transport.nextPacketNumber due c.timers

/-- The books are right when the program ends well, if they were before. -/
abbrev Posts (config : ConnectionConfig) (due : List TimerEvent) (m : ConnM α) (c : Connection) :
    Prop :=
  Ledger config due c → Ends m c (fun _ c' => Ledger config due c') fun _ _ => True

theorem Posts.bind {m : ConnM α} {f : α → ConnM β} (hm : Posts config due m c)
    (hf : ∀ a c', Posts config due (f a) c') : Posts config due (m >>= f) c := fun h =>
  ends_bind.2 ((hm h).mono (fun a c' h' => hf a c' h') fun _ _ _ => trivial)

theorem Posts.ite {b : Prop} [Decidable b] {m m' : ConnM α} (h : Posts config due m c)
    (h' : Posts config due m' c) : Posts config due (if b then m else m') c := by
  split
  · exact h
  · exact h'

/-- What the books are about. -/
structure Book where
  sent : Std.TreeMap Nat SentPacket
  congestion : CongestionController
  next : Nat
  loads : List Load
  timers : TimerState
  state : ConnectionState

def Connection.book (c : Connection) : Book where
  sent := c.transport.sent
  congestion := c.transport.congestion
  next := c.transport.nextPacketNumber
  loads := c.transport.loads
  timers := c.timers
  state := c.state

theorem Ledger.keep (h : Ledger config due c) (hb : c'.book = c.book) : Ledger config due c' := by
  have hsent : c'.transport.sent = c.transport.sent := congrArg Book.sent hb
  have hnext : c'.transport.nextPacketNumber = c.transport.nextPacketNumber :=
    congrArg Book.next hb
  refine ⟨h.balanced.keep hsent (congrArg Book.congestion hb) hnext.ge
    (congrArg Book.loads hb), fun hst => ?_⟩
  have hentry : c'.transport.entry = c.transport.entry := by
    unfold TransportState.entry
    rw [hsent]
  rw [show c'.state = _ from congrArg Book.state hb] at hst
  rw [hentry, hnext, show c'.timers = _ from congrArg Book.timers hb]
  exact h.timed hst

/-- The program does not touch the books. -/
abbrev Quiet (m : ConnM α) (c : Connection) : Prop :=
  Ends m c (fun _ c' => c'.book = c.book) fun _ _ => True

theorem Quiet.posts {m : ConnM α} (h : Quiet m c) : Posts config due m c := fun hl =>
  Ends.mono h (fun _ _ hb => hl.keep hb) fun _ _ _ => trivial

/-- The connection goes to a state that it does not come to from Closed. -/
theorem Ledger.setState {st : ConnectionState} (h : Ledger config due c)
    (hst : st ≠ .closed → c.state ≠ .closed) : Ledger config due (c.setState st) := by
  unfold Connection.setState
  split
  · exact ⟨h.balanced, fun hopen => h.timed (hst hopen)⟩
  · exact h

/-- A closed connection needs no timers. -/
theorem Ledger.close {due' : List TimerEvent} (h : Ledger config due c) (e : Option Nat)
    (t : TimerState) :
    Ledger config due' ({ c with closeError := e, timers := t }.setState .closed) := by
  unfold Connection.setState
  split
  · exact ⟨h.balanced, fun hne => absurd rfl hne⟩
  · next hst => exact ⟨h.balanced, fun hne => absurd hne hst⟩

/-- A call on the timers that keeps those of the packets. -/
theorem Ledger.onTimers {m : TimerM α} (h : Ledger config due c)
    (hm : ∀ t, Timed c.transport.entry c.transport.nextPacketNumber due t →
      Ends m t (fun _ t' => Timed c.transport.entry c.transport.nextPacketNumber due t')
        fun _ _ => True) :
    Ends (onTimers m) c (fun _ c' => Ledger config due c' ∧ c'.state = c.state)
      fun _ _ => True := by
  by_cases hst : c.state = .closed
  · exact ends_onTimers (fun _ t => ⟨⟨h.balanced, fun hne => absurd hst hne⟩, rfl⟩)
      fun _ _ => trivial
  · rw [Core.onTimers, ends_zoom]
    exact (hm c.timers (h.timed hst)).mono (fun _ t ht => ⟨⟨h.balanced, fun _ => ht⟩, rfl⟩)
      fun _ _ _ => trivial

theorem Posts.onTimers {m : TimerM α}
    (hm : ∀ t, Timed c.transport.entry c.transport.nextPacketNumber due t →
      Ends m t (fun _ t' => Timed c.transport.entry c.transport.nextPacketNumber due t')
        fun _ _ => True) :
    Posts config due (onTimers m) c := fun h =>
  (h.onTimers hm).mono (fun _ _ h' => h'.1) fun _ _ _ => trivial

/-! ## Frames put back -/

theorem Quiet.bind {m : ConnM α} {f : α → ConnM β} (hm : Quiet m c)
    (hf : ∀ a c', Quiet (f a) c') : Quiet (m >>= f) c := by
  rw [Quiet, ends_bind]
  refine Ends.mono hm (fun a c' hb => ?_) fun _ _ _ => trivial
  exact Ends.mono (hf a c') (fun _ _ hb' => hb'.trans hb) fun _ _ _ => trivial

theorem quiet_onStreams (m : StreamsM α) : Quiet (onStreams m) c := by
  rw [Quiet, onStreams, ends_zoom]
  exact .of_forall (fun _ _ => rfl) fun _ _ => trivial

theorem quiet_modify {f : Connection → Connection} (h : (f c).book = c.book) :
    Quiet (modify f) c := h

theorem quiet_ofExcept {ε : Type} (wrap : ε → CoreError) (r : Except ε α) :
    Quiet (ofExcept wrap r) c := ends_ofExcept.2 ⟨fun _ _ => rfl, fun _ _ => trivial⟩

theorem putBack_quiet (f : Frame) (n : Nat) : Quiet (putBack f n) c := by
  unfold putBack
  split
  · exact quiet_onStreams _
  · exact rfl

theorem putBackAll_quiet (n : Nat) (frames : List QueuedFrame) : Quiet (putBackAll n frames) c := by
  induction frames generalizing c with
  | nil => exact rfl
  | cons q rest ih => exact (putBack_quiet q.frame n).bind fun _ _ => ih

theorem requeueLost_quiet (frames : List QueuedFrame) (count : Nat) :
    Quiet (requeueLost frames count) c := by
  simp only [requeueLost, Quiet, ends_steps]
  exact ⟨fun _ => trivial, fun _ => putBackAll_quiet _ _⟩

theorem requeueCandidate_quiet (candidate : Candidate) : Quiet (requeueCandidate candidate) c := by
  unfold requeueCandidate
  split
  · exact rfl
  · exact putBack_quiet _ _

/-! ## Acknowledgement and loss -/

theorem entry_erase {t t' : TransportState} {n : Nat} (hs : t'.sent = t.sent.erase n) :
    t'.entry = Function.update t.entry n none := by
  unfold TransportState.entry
  rw [hs]
  exact sent_erase t.sent n

theorem removeAcked_posts (ns : List Nat) (sample : Option Nat) :
    Posts config [] (removeAcked ns sample) c := by
  induction ns generalizing c sample with
  | nil => exact fun h => h
  | cons n rest ih =>
      intro h
      simp only [removeAcked, ends_bind, ends_get]
      cases hs : c.transport.sent[n]? with
      | none => exact ih _ h
      | some packet =>
          refine ih _ ⟨h.balanced.acked hs rfl rfl rfl rfl, fun hst => ?_⟩
          show Timed (TransportState.entry _) _ _ _
          rw [entry_erase (t := c.transport) (n := n) rfl]
          exact (h.timed hst).remove hs

theorem removeLost_posts (ns : List Nat) : Posts config [] (removeLost ns) c := by
  induction ns generalizing c with
  | nil => exact fun h => h
  | cons n rest ih =>
      intro h
      simp only [removeLost, ends_bind, ends_get]
      cases hs : c.transport.sent[n]? with
      | none => exact ih h
      | some packet =>
          simp only [ends_bind, ends_modify]
          refine Ends.mono (requeueLost_quiet _ _) (fun _ c' hb => ih (Ledger.keep ?_ hb))
            fun _ _ _ => trivial
          refine ⟨h.balanced.lost hs rfl rfl rfl rfl, fun hst => ?_⟩
          show Timed (TransportState.entry _) _ _ _
          rw [entry_erase (t := c.transport) (n := n) rfl]
          exact (h.timed hst).remove hs

theorem applyAck_posts (ack : AckFrame) : Posts config [] (applyAck ack) c := by
  intro h
  simp only [applyAck, ends_steps, ends_ofExcept]
  refine ⟨fun _ _ => ⟨fun _ => trivial, fun _ => ?_⟩, fun _ _ => trivial⟩
  refine (removeAcked_posts _ _ h).mono (fun sample c₁ h₁ => ?_) fun _ _ _ => trivial
  cases sample with
  | none => exact removeLost_posts _ h₁
  | some sample => exact removeLost_posts _ (h₁.keep rfl)

theorem closeOnLimit_posts {m : ConnM α} (hm : Posts config due m c) :
    Posts config due (closeOnLimit m) c := by
  intro h
  simp only [closeOnLimit, ends_tryCatch]
  refine (hm h).mono (fun _ _ h' => h') fun e c' _ => ?_
  simp only [ends_steps]
  exact ⟨fun _ => trivial, fun _ => trivial⟩

theorem applyAcks_posts (frames : List Frame) : Posts config [] (applyAcks frames) c := by
  induction frames generalizing c with
  | nil => exact fun h => h
  | cons f rest ih =>
      cases f with
      | ack a => exact (closeOnLimit_posts (applyAck_posts a)).bind fun _ _ => ih
      | _ => exact ih

/-- The event of a packet's timer is handled: the packet is given up, if it is
still there. -/
theorem processRetransmit_ledger {n g : Nat} (h : Ledger config (.retransmit n g :: rest) c) :
    Ends (processRetransmit n g) c (fun _ c' => Ledger config rest c') fun _ _ => True := by
  simp only [processRetransmit, ends_bind, ends_get]
  cases hs : c.transport.sent[n]? with
  | none =>
      refine ⟨h.balanced, fun hst => (h.timed hst).pass fun m p hp heq => ?_⟩
      cases heq
      have hp : c.transport.sent[n]? = some p := hp
      rw [hs] at hp
      cases hp
  | some packet =>
      simp only [ends_steps, ends_modifyTransport]
      refine ⟨fun hg => ⟨h.balanced, fun hst => (h.timed hst).pass fun m p hp heq => ?_⟩,
        fun _ => ?_⟩
      · cases heq
        have hp : c.transport.sent[n]? = some p := hp
        rw [hs] at hp
        cases hp
        exact hg rfl
      · refine Ends.mono (requeueLost_quiet _ _) (fun _ c' hb => Ledger.keep ?_ hb)
          fun _ _ _ => trivial
        refine ⟨h.balanced.lost hs rfl rfl rfl rfl, fun hst => ?_⟩
        show Timed (TransportState.entry _) _ _ _
        rw [entry_erase (t := c.transport) (n := n) rfl]
        exact (h.timed hst).giveUp

/-! ## Flushing -/

theorem takeCandidate_quiet : Quiet takeCandidate c := by
  simp only [takeCandidate, takeDataCandidate, Quiet, ends_steps, ends_ofExcept]
  refine ⟨fun _ => ⟨fun _ _ => trivial, fun _ _ => trivial⟩, fun _ => ?_⟩
  split
  · exact rfl
  · split
    · exact rfl
    · exact rfl

theorem flowBlocks_quiet (candidate : Candidate) : Quiet (flowBlocks candidate) c := by
  unfold flowBlocks
  split
  · simp only [Quiet, ends_steps]
    exact ⟨fun _ => trivial, fun _ => ⟨fun _ => rfl, fun _ => trivial⟩⟩
  · exact rfl

/-- The number has been taken for a packet, and nothing else has changed. -/
structure Numbered (config : ConnectionConfig) (due : List TimerEvent) (n : Nat)
    (c : Connection) : Prop where
  next : c.transport.nextPacketNumber = n + 1
  balanced : Balanced config { c.transport with nextPacketNumber := n }
  timed : c.state ≠ .closed → Timed c.transport.entry n due c.timers

theorem Ledger.numbered (h : Ledger config due c)
    (hb : c'.book = { c.book with next := c.transport.nextPacketNumber + 1 }) :
    Numbered config due c.transport.nextPacketNumber c' := by
  have hsent : c'.transport.sent = c.transport.sent := congrArg Book.sent hb
  have hentry : c'.transport.entry = c.transport.entry := by
    unfold TransportState.entry
    rw [hsent]
  refine ⟨congrArg Book.next hb, h.balanced.keep hsent (congrArg Book.congestion hb)
    (Nat.le_refl _) (congrArg Book.loads hb), fun hst => ?_⟩
  rw [show c'.state = _ from congrArg Book.state hb] at hst
  rw [hentry, show c'.timers = _ from congrArg Book.timers hb]
  exact h.timed hst

theorem Numbered.ledger {n : Nat} (h : Numbered config due n c) : Ledger config due c := by
  refine ⟨h.balanced.keep rfl rfl ?_ rfl, fun hst => ?_⟩
  · rw [h.next]
    exact Nat.le_succ n
  · rw [h.next]
    exact (h.timed hst).mono (Nat.le_succ n)

/-- A packet is entered in the books, once its load is noted too. -/
theorem recordSent_posts {n len : Nat} {q : QueuedFrame} (h : Numbered config due n c)
    (hwindow : c.transport.congestion.canSend len = true) :
    Ends (recordSent n len q) c
      (fun _ c' => Ledger config due { c' with transport := c'.transport.weigh })
      fun _ _ => True := by
  have hfits : saturatingAdd c.transport.congestion.bytesInFlight len ≤
      c.transport.congestion.cwnd := of_decide_eq_true hwindow
  have hcounted : c.transport.congestion.bytesInFlight ≤ u64Max := h.balanced.counted
  have hunder : c.transport.congestion.bytesInFlight ≤ c.transport.congestion.cwnd := by
    unfold saturatingAdd at hfits
    omega
  have huntracked : Ledger config due { c with transport := c.transport.weigh } :=
    ⟨h.ledger.balanced.weigh hunder, h.ledger.timed⟩
  unfold recordSent
  split
  · exact huntracked
  · exact huntracked
  · exact huntracked
  · simp only [ends_bind, ends_modifyTransport, ends_get]
    have hbalanced : ∀ timerId : Nat, _ := fun timerId =>
      @Balanced.sent config _
        { c.transport with
          generation := (c.transport.generation + 1) % 2 ^ 32
          congestion := c.transport.congestion.onSent len
          sent := c.transport.sent.insert n ⟨n, c.now, len, [q], q.retransmitCount, timerId,
            (c.transport.generation + 1) % 2 ^ 32⟩ }
        ⟨n, c.now, len, [q], q.retransmitCount, timerId, (c.transport.generation + 1) % 2 ^ 32⟩
        h.balanced rfl hwindow rfl h.next rfl rfl
    by_cases hst : c.state = .closed
    · exact ends_onTimers (fun timerId t => ⟨hbalanced timerId, fun hne =>
        absurd hst hne⟩) fun _ _ => trivial
    · rw [onTimers, ends_zoom]
      have htimed := h.timed hst
      refine (schedule_ends htimed.sound _ _).mono (fun timerId t ht => ?_) fun _ _ _ => trivial
      obtain ⟨hid, ht⟩ := ht
      refine ⟨hbalanced timerId, fun _ => ?_⟩
      have htrack := htimed.track (p := ⟨n, c.now, len, [q], q.retransmitCount, timerId,
        (c.transport.generation + 1) % 2 ^ 32⟩) ht hid
      rw [← h.next] at htrack
      have hentry : Function.update c.transport.entry n (some ⟨n, c.now, len, [q],
          q.retransmitCount, timerId, (c.transport.generation + 1) % 2 ^ 32⟩) =
          fun m => (c.transport.sent.insert n ⟨n, c.now, len, [q], q.retransmitCount, timerId,
            (c.transport.generation + 1) % 2 ^ 32⟩)[m]? := (sent_insert _ _ _).symm
      rw [hentry] at htrack
      exact htrack

theorem settle_posts {n len : Nat} {candidate : Candidate} (h : Numbered config due n c)
    (hwindow : candidate.outbound.isAckEliciting = true →
      c.transport.congestion.canSend len = true) :
    Ends (settle n len candidate) c (fun _ c' => Ledger config due c') fun _ _ => True := by
  cases candidate with
  | ack a =>
      simp only [settle, ends_modify]
      have hledger := h.ledger
      refine ⟨hledger.balanced.keep rfl rfl (Nat.le_refl _) rfl, fun hst => ?_⟩
      exact (hledger.timed hst).cancelAck
  | frame q =>
      simp only [settle, ends_steps, ends_modifyTransport]
      exact ⟨fun he => recordSent_posts h (hwindow he), fun _ => h.ledger⟩

theorem flushOnce_posts : Posts config due flushOnce c := by
  intro h
  simp only [flushOnce, ends_bind]
  refine takeCandidate_quiet.mono (fun r c₁ hb => ?_) fun _ _ _ => trivial
  have h₁ := h.keep hb
  match r with
  | none => exact h₁
  | some candidate =>
      simp only [ends_steps, ends_ofExcept]
      refine ⟨fun len hlen => ⟨fun _ => ?_, fun hsend => ?_⟩, fun _ _ => trivial⟩
      · exact (requeueCandidate_quiet candidate).mono (fun _ _ hb' => h₁.keep hb')
          fun _ _ _ => trivial
      · split
        · trivial
        · next next hnext =>
            obtain ⟨_, rfl⟩ := checkedAdd_eq_some.1 hnext
            simp only [ends_bind, ends_modifyTransport]
            refine (flowBlocks_quiet candidate).mono (fun blocked c₂ hb₂ => ?_) fun _ _ _ => trivial
            simp only [ends_steps]
            refine ⟨fun _ => ?_, fun _ => ?_⟩
            · refine (requeueCandidate_quiet candidate).mono (fun _ c₃ hb₃ => ?_)
                fun _ _ _ => trivial
              refine h₁.keep ?_
              have hbook := hb₃.trans hb₂
              show Book.mk c₃.transport.sent c₃.transport.congestion
                (c₃.transport.nextPacketNumber - 1) _ _ _ = _
              rw [show c₃.transport.nextPacketNumber = c₁.transport.nextPacketNumber + 1 from
                congrArg Book.next hbook, Nat.add_sub_cancel]
              exact congrArg (fun b : Book => { b with next := c₁.transport.nextPacketNumber })
                hbook
            · have hnumbered : Numbered config due _ (c₂.emit (.send (c₁.packetFor candidate))) :=
                h₁.numbered hb₂
              refine (settle_posts hnumbered fun heliciting => ?_).mono (fun _ _ h' => h')
                fun _ _ _ => trivial
              have hcong : c₂.transport.congestion = c₁.transport.congestion :=
                congrArg Book.congestion hb₂
              show c₂.transport.congestion.canSend len = true
              rw [hcong]
              simpa [heliciting] using hsend

theorem flushLoop_posts (n : Nat) : Posts config due (flushLoop n) c := by
  induction n generalizing c with
  | zero => exact fun h => h
  | succ n ih => exact flushOnce_posts.bind fun _ _ => Posts.ite ih fun h => h

theorem flush_posts : Posts config due flush c := flushLoop_posts _

/-! ## The handshake -/

theorem scheduleHandshake_posts (delay : Nat) :
    Posts config due (onTimers (scheduleHandshake delay)) c :=
  Posts.onTimers fun _ ht => ht.scheduleHandshake delay

theorem activateCrypto_quiet : Quiet activateCrypto c := by
  simp only [activateCrypto, Quiet, ends_steps]
  refine ⟨fun _ => trivial, fun _ => ?_⟩
  split
  · exact trivial
  · exact rfl

/-- A smaller datagram size is taken over; the state stays. -/
theorem receiveClientHello_posts (packetType : PacketType) (hello : ClientHello)
    (h : Ledger config due c) :
    Ends (receiveClientHello suite packetType hello) c
      (fun r c' => Ledger config due c' ∧ c'.state = c.state ∧
        ∀ st, r.2.1 = some st → c.state = .idle)
      fun _ _ => True := by
  have hnext : ∀ st, (if c.state = .idle then some ConnectionState.handshaking else none) =
      some st → c.state = .idle := fun st hst => by
    split at hst
    · next hidle => exact hidle
    · cases hst
  simp only [receiveClientHello, ends_steps, ends_modifyHandshake, ends_ofExcept]
  refine ⟨fun _ => trivial, fun _ => ⟨fun _ => trivial, fun _ => ⟨fun _ => ?_, fun _ => ?_⟩⟩⟩
  · exact ⟨fun _ _ => ⟨fun _ _ => ⟨h.keep rfl, trivial, hnext⟩, fun _ _ => trivial⟩,
      fun _ _ => trivial⟩
  · exact ⟨fun _ _ => ⟨fun _ _ => ⟨h.keep rfl, trivial, hnext⟩, fun _ _ => trivial⟩,
      fun _ _ => trivial⟩

theorem processClientHello_posts (packetType : PacketType) (hello : ClientHello) :
    Posts config due (processClientHello suite packetType hello) c := by
  intro h
  simp only [processClientHello, ends_bind]
  refine (receiveClientHello_posts packetType hello h).mono (fun r c₁ h₁ => ?_) fun _ _ _ => trivial
  obtain ⟨frame, nextState, maxOffset⟩ := r
  obtain ⟨h₁, hstate, hnext⟩ := h₁
  simp only [ends_steps, ends_modifyHandshake]
  have henter : ∀ c₂ : Connection, c₂.book = c₁.book →
      Ends (enterState nextState) c₂ (fun _ c' => Ledger config due c') fun _ _ => True := by
    intro c₂ hb
    cases nextState with
    | none => exact h₁.keep hb
    | some st =>
        simp only [enterState, ends_bind, ends_get]
        have hopen : c₂.state ≠ .closed := by
          rw [show c₂.state = c₁.state from congrArg Book.state hb, hstate, hnext st rfl]
          decide
        refine ((h₁.keep hb).onTimers fun _ ht => ht.scheduleHandshake _).mono (fun _ c₃ h₃ => ?_)
          fun _ _ _ => trivial
        refine h₃.1.setState fun _ => ?_
        rw [h₃.2]
        exact hopen
  refine ⟨fun _ => ?_, fun _ => henter _ rfl⟩
  exact activateCrypto_quiet.mono (fun _ c₂ hb => henter c₂ hb) fun _ _ _ => trivial

theorem processServerHello_posts (packetType : PacketType) (hello : ServerHello) :
    Posts config due (processServerHello suite packetType hello) c := by
  intro h
  simp only [processServerHello, receiveServerHello, ends_steps, ends_modifyHandshake]
  refine ⟨fun _ => trivial, fun hguard => ?_⟩
  have hopen : c.state ≠ .closed := fun hst => hguard (by rw [hst]; simp)
  split
  · trivial
  · simp only [ends_bind, ends_ofExcept, ends_modifyHandshake, ends_pure]
    refine ⟨fun _ _ => ⟨fun _ _ => ⟨fun _ _ => ?_, fun _ _ => trivial⟩, fun _ _ => trivial⟩,
      fun _ _ => trivial⟩
    refine Ends.mono activateCrypto_quiet (fun _ c' hb => Ledger.keep ?_ hb) fun _ _ _ => trivial
    refine Ledger.setState ?_ fun _ => hopen
    exact ⟨h.balanced.keep rfl rfl (Nat.le_refl _) rfl, fun hst => (h.timed hst).cancelHandshake⟩

theorem processHandshakeAck_posts (packetType : PacketType) (ack : HandshakeAck) :
    Posts config due (processHandshakeAck suite packetType ack) c := by
  intro h
  simp only [processHandshakeAck, receiveHandshakeAck, ends_steps]
  refine ⟨fun _ => trivial, fun hguard => ?_⟩
  have hopen : c.state ≠ .closed := fun hst => hguard (by rw [hst]; simp)
  split
  · trivial
  · split
    · trivial
    · simp only [ends_bind, ends_ofExcept, ends_modify]
      refine ⟨fun _ _ => ?_, fun _ _ => trivial⟩
      refine Ends.mono activateCrypto_quiet (fun _ c' hb => Ledger.keep ?_ hb) fun _ _ _ => trivial
      refine Ledger.setState ?_ fun _ => hopen
      exact ⟨h.balanced, fun hst => (h.timed hst).cancelHandshake⟩

theorem processRetry_posts (packetType : PacketType) (cookie : Bytes) :
    Posts config due (processRetry suite packetType cookie) c := by
  intro h
  simp only [processRetry, receiveRetry, ends_steps, ends_modifyHandshake]
  refine ⟨fun _ => trivial, fun _ => ⟨fun _ => trivial, fun _ => ?_⟩⟩
  exact scheduleHandshake_posts _ (h.keep rfl)

/-! ## Frames and packets received -/

theorem processStreamOpen_quiet (packetType : PacketType) (frame : StreamOpen) :
    Quiet (processStreamOpen packetType frame) c := by
  simp only [processStreamOpen, Quiet, ends_steps, ends_ensureData]
  refine ⟨fun _ => ⟨fun _ => trivial, fun _ => ?_⟩, fun _ => trivial⟩
  split
  · simp only [ends_ite, ends_throw, ends_pure]
    exact ⟨fun _ => trivial, fun _ => trivial⟩
  · rw [ends_ite]
    refine ⟨fun _ => trivial, fun _ => Quiet.bind (quiet_onStreams _) fun _ _ => ?_⟩
    exact quiet_modify (f := (·.emit _)) rfl

theorem processStreamData_quiet (packetType : PacketType) (data : StreamData) :
    Quiet (processStreamData packetType data) c := by
  rw [Quiet, processStreamData, ends_bind, ends_ensureData]
  refine ⟨fun _ => ?_, fun _ => trivial⟩
  rw [ends_bind, ends_get]
  refine Quiet.bind (quiet_onStreams _) fun newBytes c₁ => ?_
  split
  · exact trivial
  · refine Quiet.bind (quiet_ofExcept _ _) fun _ _ => Quiet.bind (quiet_onStreams _) fun status _ =>
      Quiet.bind (quiet_ofExcept _ _) fun _ _ => Quiet.bind (quiet_modify rfl) fun _ c₂ => ?_
    simp only [Quiet, ends_steps]
    exact ⟨fun _ => trivial, fun _ => ⟨fun _ => ⟨fun _ => rfl, fun _ => rfl⟩,
      fun _ => ⟨fun _ => rfl, fun _ => trivial⟩⟩⟩

theorem processResetStream_quiet (packetType : PacketType) (reset : ResetStream) :
    Quiet (processResetStream packetType reset) c := by
  rw [Quiet, processResetStream, ends_bind, ends_ensureData]
  exact ⟨fun _ => Quiet.bind (quiet_onStreams _) fun _ _ => quiet_modify rfl, fun _ => trivial⟩

theorem processConnectionClose_posts (packetType : PacketType) (frame : ConnectionClose) :
    Posts config due (processConnectionClose packetType frame) c := by
  intro h
  simp only [processConnectionClose, ends_steps]
  exact ⟨fun _ => trivial, fun _ =>
    Ledger.keep (h.close (some frame.errorCode) c.timers.cancelAll) rfl⟩

theorem processFrame_posts (packetType : PacketType) (f : Frame) :
    Posts config due (processFrame suite packetType f) c := by
  cases f with
  | clientHello hello => exact processClientHello_posts packetType hello
  | serverHello hello => exact processServerHello_posts packetType hello
  | handshakeAck ack => exact processHandshakeAck_posts packetType ack
  | retry cookie => exact processRetry_posts packetType cookie
  | streamOpen frame => exact (processStreamOpen_quiet packetType frame).posts
  | streamData data => exact (processStreamData_quiet packetType data).posts
  | resetStream reset => exact (processResetStream_quiet packetType reset).posts
  | maxStreamData update =>
      exact fun h => ends_bind.2 (ends_ensureData.2
        ⟨fun _ => (quiet_onStreams _).posts h, fun _ => trivial⟩)
  | maxData maxOffset =>
      exact fun h => ends_bind.2 (ends_ensureData.2 ⟨fun _ => h.keep rfl, fun _ => trivial⟩)
  | ping nonce =>
      exact fun h => ends_bind.2 (ends_ensureData.2 ⟨fun _ => h.keep rfl, fun _ => trivial⟩)
  | pong nonce => exact fun h => h
  | connectionClose frame => exact processConnectionClose_posts packetType frame
  | ack a => exact fun h => h

theorem processFrames_posts (packetType : PacketType) (frames : List Frame) :
    Posts config due (processFrames suite packetType frames) c := by
  induction frames generalizing c with
  | nil => exact fun h => h
  | cons f rest ih =>
      intro h
      simp only [processFrames, ends_bind, ends_ite]
      exact ⟨fun _ => (processFrame_posts packetType f h).mono (fun _ _ h' => ih h')
        fun _ _ _ => trivial, fun _ => ih h⟩

theorem scheduleAck_posts : Posts config due scheduleAck c := by
  intro h
  simp only [scheduleAck, ends_steps, ends_modifyTransport]
  refine ⟨fun _ => h.keep rfl, fun _ => ⟨fun _ => ?_, fun _ => h.keep rfl⟩⟩
  exact Posts.onTimers (fun _ ht => ht.scheduleAckTimer _) (h.keep rfl)

theorem recordReceived_quiet (p : Packet) : Quiet (recordReceived p) c := by
  simp only [recordReceived, Quiet, ends_steps, ends_modifyTransport]
  exact ⟨fun _ => trivial, fun _ => rfl⟩

theorem onDatagram_posts (p : Packet) : Posts config [] (onDatagram suite p) c := by
  intro h
  simp only [onDatagram, ends_steps]
  refine ⟨fun _ => trivial, fun _ => ⟨fun _ => trivial, fun _ => ?_⟩⟩
  refine (Posts.onTimers (fun _ ht => ht.scheduleIdle _) h).mono (fun _ c₁ h₁ => ?_)
    fun _ _ _ => trivial
  refine ((recordReceived_quiet p).posts h₁).mono (fun isNew c₂ h₂ => ?_) fun _ _ _ => trivial
  refine (applyAcks_posts p.frames h₂).mono (fun _ c₃ h₃ => ?_) fun _ _ _ => trivial
  have hanswered : ∀ c', Ledger config [] c' →
      (p.frames.any Frame.isAckEliciting = true →
        Ends scheduleAck c' (fun _ c'' => Ends flush c'' (fun _ c'' => Ledger config [] c'')
          fun _ _ => True) fun _ _ => True) ∧
      (¬p.frames.any Frame.isAckEliciting = true →
        Ends flush c' (fun _ c'' => Ledger config [] c'') fun _ _ => True) := fun c' h' =>
    ⟨fun _ => (scheduleAck_posts h').mono (fun _ _ h'' => flush_posts h'') fun _ _ _ => trivial,
      fun _ => flush_posts h'⟩
  refine ⟨fun _ => ?_, fun _ => hanswered c₃ h₃⟩
  exact (processFrames_posts p.packetType p.frames h₃).mono (fun _ c₄ h₄ => hanswered c₄ h₄)
    fun _ _ _ => trivial

theorem decodeDatagram_quiet (bytes : Bytes) : Quiet (decodeDatagram suite bytes) c := by
  simp only [decodeDatagram, Quiet, ends_steps, ends_ofExcept]
  refine ⟨fun _ _ => ⟨fun _ => ?_, fun _ => ⟨fun _ _ => trivial, fun _ _ => trivial⟩⟩,
    fun _ _ => trivial⟩
  split
  · trivial
  · simp only [ends_bind, ends_modify, ends_ofExcept]
    exact ⟨fun _ _ => rfl, fun _ _ => trivial⟩

theorem onDatagramBytes_posts (bytes : Bytes) :
    Posts config [] (onDatagramBytes suite bytes) c :=
  (decodeDatagram_quiet bytes).posts.bind fun p _ => onDatagram_posts p

/-! ## Calls of the application -/

theorem ensureEstablished_quiet (operation : String) : Quiet (ensureEstablished operation) c := by
  simp only [ensureEstablished, Quiet, ends_steps]
  exact ⟨fun _ => trivial, fun _ => trivial⟩

theorem openStream_posts : Posts config [] openStream c := by
  intro h
  simp only [openStream, ends_bind]
  refine (ensureEstablished_quiet _).mono (fun _ c₁ hb => ?_) fun _ _ _ => trivial
  simp only [ends_get, ends_ite, ends_throw, ends_bind]
  refine ⟨fun _ => trivial, fun _ => ?_⟩
  refine (quiet_onStreams _).mono (fun streamId c₂ hb₂ => ?_) fun _ _ _ => trivial
  simp only [ends_modify, ends_pure]
  exact flush_posts (h.keep (hb₂.trans hb))

theorem writeStream_posts (streamId : Nat) (data : Bytes) (fin : Bool) :
    Posts config [] (writeStream streamId data fin) c := by
  intro h
  simp only [writeStream, ends_bind]
  refine (ensureEstablished_quiet _).mono (fun _ c₁ hb => ?_) fun _ _ _ => trivial
  simp only [ends_get]
  refine (quiet_onStreams _).mono (fun written c₂ hb₂ => ?_) fun _ _ _ => trivial
  simp only [ends_pure]
  exact flush_posts (h.keep (hb₂.trans hb))

theorem readStream_posts (streamId maxLen : Nat) :
    Posts config [] (readStream streamId maxLen) c := by
  refine (quiet_onStreams _).posts.bind fun r c₁ => ?_
  obtain ⟨data, eof, windowUpdate⟩ := r
  have hended : ∀ c₂, Posts config [] (do
      if eof then modify (·.emit (.streamFinished streamId))
      flush
      return (⟨data, eof⟩ : ReadResult)) c₂ := fun c₂ h => by
    simp only [ends_steps]
    exact ⟨fun _ => flush_posts (h.keep rfl), fun _ => flush_posts h⟩
  have hconsumed : ∀ c₂, Posts config [] (do
      if !data.isEmpty then
        modify fun c =>
          { c with connectionReceive := (c.connectionReceive.consume data.length).2 }
      if eof then modify (·.emit (.streamFinished streamId))
      flush
      return (⟨data, eof⟩ : ReadResult)) c₂ := fun c₂ h => by
    rw [ends_ite, ends_bind, ends_modify]
    exact ⟨fun _ => hended _ (h.keep rfl), fun _ => hended _ h⟩
  cases windowUpdate with
  | none => exact hconsumed c₁
  | some maxOffset => exact fun h => ends_bind.2 (hconsumed _ (h.keep rfl))

theorem close_posts (errorCode : Nat) (reason : Bytes) :
    Posts config due (close errorCode reason) c := by
  intro h
  simp only [close, ends_steps]
  refine ⟨fun _ => h, fun hopen => ?_⟩
  have hclosing : Ledger config due (({ c with closeError := some errorCode }.setState
      .closing).queue (.connectionClose ⟨errorCode, 0, reason⟩)) :=
    Ledger.keep (Ledger.setState (c := { c with closeError := some errorCode }) (h.keep rfl)
      fun _ => hopen) rfl
  exact (Posts.onTimers (fun _ ht => ht.scheduleClose _) hclosing).mono
    (fun _ _ h' => flush_posts h') fun _ _ _ => trivial

/-! ## Time -/

theorem onHandshakeTimeout_posts : Posts config due onHandshakeTimeout c := by
  intro h
  simp only [onHandshakeTimeout, ends_steps]
  refine ⟨fun _ => h, fun _ => ?_⟩
  split
  · exact h
  · simp only [ends_steps, ends_modifyHandshake]
    exact ⟨fun _ => h, fun _ => scheduleHandshake_posts _ (h.keep rfl)⟩

/-- An event that is not a packet's is done with before it is handled. -/
theorem Ledger.pass {event : TimerEvent} (h : Ledger config (event :: rest) c)
    (hevent : ∀ n g, event ≠ .retransmit n g) : Ledger config rest c :=
  ⟨h.balanced, fun hst => (h.timed hst).pass fun n p _ => hevent n p.generation⟩

/-- Handling an event takes it off the events that are due. -/
theorem processTimer_ledger {event : TimerEvent} (h : Ledger config (event :: rest) c) :
    Ends (processTimer event) c (fun _ c' => Ledger config rest c') fun _ _ => True := by
  cases event with
  | handshakeTimeout =>
      have h := h.pass fun _ _ h => by cases h
      simp only [processTimer, ends_steps]
      refine ⟨fun _ => ?_, fun _ => h⟩
      exact (onHandshakeTimeout_posts h).mono
        (fun _ _ h' => ⟨fun _ => close_posts _ _ h', fun _ => h'⟩) fun _ _ _ => trivial
  | retransmit n g =>
      simp only [processTimer, closeOnLimit, ends_tryCatch]
      refine (processRetransmit_ledger h).mono (fun _ _ h' => h') fun e c' _ => ?_
      simp only [ends_steps]
      exact ⟨fun _ => trivial, fun _ => trivial⟩
  | ackDelay =>
      refine (h.pass fun _ _ h => by cases h).keep ?_
      show Book.mk c.transport.onAckTimer.sent c.transport.onAckTimer.congestion
        c.transport.onAckTimer.nextPacketNumber c.transport.onAckTimer.loads _ _ = _
      unfold TransportState.onAckTimer
      split <;> rfl
  | keepalive =>
      have h := h.pass fun _ _ h => by cases h
      simp only [processTimer, ends_steps, ends_modifyTransport]
      have hqueued : Ledger config rest { c with transport := c.transport.queueKeepalive } :=
        h.keep rfl
      refine ⟨fun _ => ?_, fun _ => ?_⟩
      · split
        · exact Posts.onTimers (fun _ ht => ht.scheduleKeepalive _) hqueued
        · exact hqueued
      · split
        · exact Posts.onTimers (fun _ ht => ht.scheduleKeepalive _) h
        · exact h
  | idleTimeout =>
      have h := h.pass fun _ _ h => by cases h
      simp only [processTimer, ends_steps]
      exact ⟨fun _ => close_posts _ _ h, fun _ => h⟩
  | closeTimeout =>
      exact Ledger.keep (h.close c.closeError c.timers.cancelAll) rfl

theorem processTimers_ledger {events : List TimerEvent} (h : Ledger config events c) :
    Ends (processTimers events) c (fun _ c' => Ledger config [] c') fun _ _ => True := by
  induction events generalizing c with
  | nil => exact h
  | cons event rest ih =>
      simp only [processTimers, ends_bind, ends_modify]
      have hcleared : Ledger config (event :: rest)
          { c with timers := c.timers.clearSlot event } :=
        ⟨h.balanced, fun hst => (h.timed hst).clearSlot event⟩
      exact (processTimer_ledger hcleared).mono (fun _ _ h' => ih h') fun _ _ _ => trivial

theorem advanceTime_posts (elapsed : Nat) : Posts config [] (advanceTime elapsed) c := by
  intro h
  simp only [advanceTime, ends_steps]
  refine ⟨fun _ => trivial, fun _ => ?_⟩
  have hlater : Ledger config [] { c with now := c.now + elapsed } := h.keep rfl
  have hadvanced : Ends (onTimers (advance elapsed)) { c with now := c.now + elapsed }
      (fun events c' => Ledger config events c') fun _ _ => True := by
    by_cases hst : c.state = .closed
    · exact ends_onTimers (fun _ t => ⟨h.balanced, fun hne => absurd hst hne⟩)
        fun _ _ => trivial
    · rw [onTimers, ends_zoom]
      exact ((hlater.timed hst).advance elapsed).mono
        (fun _ t ht => ⟨h.balanced, fun _ => ht⟩) fun _ _ _ => trivial
  refine hadvanced.mono (fun events c₁ h₁ => ?_) fun _ _ _ => trivial
  exact (processTimers_ledger h₁).mono (fun _ _ h₂ => flush_posts h₂) fun _ _ _ => trivial

end DartUdp.Core
