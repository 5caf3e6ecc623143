import DartUdp.Proofs.ConnAlarms
import DartUdp.Proofs.ConnLifecycle
import DartUdp.Proofs.ConnRecovery
import DartUdp.Proofs.ConnStages

/-!
# What a connection does with its timers

Every function of the source does one of a few things to the timers, together
with what it does to the state, and one lemma for each function says which.
Two of these are apart, since nothing good follows from them: a timer is set
while its slot still holds another, and a connection turns to Closing without a
close timer. The lemmas say what has to be the case for either to happen.

`processTimer_ticks` and the lemmas for the operations say this of whole calls, and
`Ticks.keeps` makes it an invariant rule: what every tick keeps is kept by every
call. `closing_ends` and `timer_slots_exact` are proved by that rule.
-/

namespace DartUdp.Core

open DartUdp.Lib DartUdp.Udp

/-! ## Ticks -/

/-- What matters for the timers: the state, the timers, and the ids that packets
hold. -/
structure Clock where
  state : ConnectionState
  alarms : Alarms TimerKind TimerEvent
  owned : Nat → Prop

def Connection.clock (c : Connection) : Clock where
  state := c.state
  alarms := c.timers.alarms
  owned id := ∃ (n : Nat) (p : SentPacket), c.transport.sent[n]? = some p ∧ p.timerId = id

/-- The states in which a timer may be set by itself. -/
def TimerKind.Fits : TimerKind → ConnectionState → Prop
  | .handshake, s => s = .handshaking
  | .close, s => s = .closing
  | _, _ => True

/-- One thing a function of the source may do. `A` are the timers it may set, `O`
is whether it may set one over another, and `S` whether it may leave a
connection Closing without a timer. -/
inductive Tick (A : TimerKind → Prop) (O S : Prop) (v : Clock) : Clock → Prop
  | set (k : TimerKind) (hA : A k) (hslot : v.alarms.slot k = none) (hfits : k.Fits v.state) :
      Tick A O S v { v with alarms := v.alarms.set k k.event }
  | overwrite (k : TimerKind) (hO : O) (hfits : k.Fits v.state) :
      Tick A O S v { v with alarms := v.alarms.set k k.event }
  | stop (k : TimerKind) (hk : k ≠ .close) : Tick A O S v { v with alarms := v.alarms.stop k }
  | track (n g : Nat) (owned : Nat → Prop) (h : ∀ id, owned id → v.owned id ∨ id = v.alarms.next) :
      Tick A O S v { v with alarms := v.alarms.add (.retransmit n g), owned := owned }
  | drop (id : Nat) (h : v.owned id) : Tick A O S v { v with alarms := v.alarms.drop id }
  | release (owned : Nat → Prop) (h : ∀ id, owned id → v.owned id) :
      Tick A O S v { v with owned := owned }
  | shake (hA : A .handshake) (hstate : v.state = .idle) :
      Tick A O S v
        { v with state := .handshaking, alarms := v.alarms.set .handshake .handshakeTimeout }
  | establish (hstate : v.state = .handshaking) : Tick A O S v { v with state := .established }
  | close (hA : A .close) (hstate : v.state.rank < ConnectionState.closing.rank) :
      Tick A O S v { v with state := .closing, alarms := v.alarms.set .close .closeTimeout }
  | strand (hS : S) : Tick A O S v { v with state := .closing }
  | finish : Tick A O S v { v with state := .closed, alarms := v.alarms.clear }

variable {suite : Suite} {α : Type} {A : TimerKind → Prop} {O S : Prop} {c c' : Connection}

/-- The connection got there by ticks. -/
def Ticks (A : TimerKind → Prop) (O S : Prop) (c c' : Connection) : Prop :=
  c.timers.Sound → c'.timers.Sound ∧ Relation.ReflTransGen (Tick A O S) c.clock c'.clock

namespace Ticks

instance : IsPreorder Connection (Ticks A O S) where
  refl _ := fun h => ⟨h, .refl⟩
  trans _ _ _ h h' := fun hs =>
    have ⟨hs', hticks⟩ := h hs
    have ⟨hs'', hticks'⟩ := h' hs'
    ⟨hs'', hticks.trans hticks'⟩

theorem trans {c'' : Connection} (h : Ticks A O S c c') (h' : Ticks A O S c' c'') :
    Ticks A O S c c'' := IsTrans.trans c c' c'' h h'

theorem of_tick (h : c.timers.Sound → c'.timers.Sound ∧ Tick A O S c.clock c'.clock) :
    Ticks A O S c c' := fun hs => ⟨(h hs).1, .single (h hs).2⟩

end Ticks

theorem Still.ticks (h : Still c c') : Ticks A O S c c' := by
  intro hs
  have hclock : c'.clock = c.clock := by
    unfold Connection.clock
    rw [h.state, h.timers, h.sent]
  rw [h.timers, hclock]
  exact ⟨hs, .refl⟩

theorem ticks_of_still {m : ConnM α} (h : Within Still m c) : Within (Ticks A O S) m c :=
  h.mono fun _ => Still.ticks

theorem Connection.setState_clock (c : Connection) (s : ConnectionState) :
    (c.setState s).clock = { c.clock with state := s } := by
  unfold setState
  split
  · rfl
  · next h =>
      rw [← not_not.1 h]
      rfl

theorem Connection.setState_timers (c : Connection) (s : ConnectionState) :
    (c.setState s).timers = c.timers := by
  unfold setState
  split <;> rfl

theorem emit_ticks (o : CoreOutput) : Within (Ticks A O S) (modify (·.emit o) : ConnM Unit) c :=
  fun hs => ⟨hs, .refl⟩

/-! ## Timers set -/

/-- A timer is set, into an empty slot unless it may be set over another. -/
theorem arms_ticks {k : TimerKind} {m : TimerM Unit} {delay : Nat}
    (hm : m = do
      let timer ← schedule k.event delay
      modify (·.withSlot (some timer) k))
    (h : A k ∧ c.timers.slot k = none ∨ (c.timers.takes delay = true → O))
    (hfits : k.Fits c.state) : Within (Ticks A O S) (onTimers m) c := by
  rw [Within, onTimers, ends_zoom]
  by_cases hs : c.timers.Sound
  · have hset := schedule_sets hs k delay
    have htakes := sets_takes hs k delay
    rw [← hm] at hset htakes
    refine (hset.and htakes).mono (fun _ t ht => ?_) fun _ t ht => ?_
    · obtain ⟨⟨hsound, halarms⟩, htaken, _⟩ := ht
      refine .of_tick fun _ => ⟨hsound, ?_⟩
      have htick : Tick A O S c.clock { c.clock with alarms := c.timers.alarms.set k k.event } := by
        rcases h with ⟨hA, hslot⟩ | hO
        · exact .set k hA hslot hfits
        · exact .overwrite k (hO htaken) hfits
      rwa [← halarms] at htick
    · rw [ht.1]
      exact Std.Refl.refl c
  · exact .of_forall (fun _ _ hs' => absurd hs' hs) fun _ _ hs' => absurd hs' hs

theorem stop_ticks {k : TimerKind} (hk : k ≠ .close) :
    Ticks A O S c { c with timers := c.timers.stop k } := by
  refine .of_tick fun hs => ?_
  obtain ⟨hsound, halarms⟩ := stop_stops hs k
  refine ⟨hsound, ?_⟩
  have htick : Tick A O S c.clock { c.clock with alarms := c.timers.alarms.stop k } := .stop k hk
  rwa [← halarms] at htick

theorem scheduleIdle_ticks (hA : A .idle) (delay : Nat) :
    Within (Ticks A O S) (onTimers (scheduleIdle delay)) c := by
  have hstopped : Ticks A O S c { c with timers := c.timers.stop .idle } :=
    stop_ticks fun h => by cases h
  have hset : Within (Ticks A O S)
      (onTimers (do
        let timer ← schedule .idleTimeout delay
        modify fun t => { t with idle := some timer })) { c with timers := c.timers.stop .idle } :=
    arms_ticks (k := .idle) rfl (.inl ⟨hA, rfl⟩) trivial
  rw [Within, onTimers, ends_zoom, scheduleIdle, ends_bind, ends_modify]
  exact ends_zoom.1 (Within.trans hstopped hset)

theorem scheduleAckTimer_ticks (hA : A .ack) (delay : Nat) :
    Within (Ticks A O S) (onTimers (scheduleAckTimer delay)) c := by
  rw [scheduleAckTimer, Within, onTimers, ends_zoom, ends_bind, ends_get, ends_ite]
  have hsame : Ticks A O S c c := Std.Refl.refl c
  refine ⟨fun hnone => ?_, fun _ => hsame⟩
  have hslot : c.timers.slot .ack = none := Option.isNone_iff_eq_none.1 hnone
  exact ends_zoom.1 (arms_ticks (k := .ack) rfl (.inl ⟨hA, hslot⟩) trivial)

theorem scheduleAck_ticks (hA : A .ack) : Within (Ticks A O S) scheduleAck c :=
  (ticks_of_still (modifyTransport_still rfl rfl)).bind fun _ _ => .get_bind <|
    .ite (fun _ => ticks_of_still (modifyTransport_still rfl rfl)) fun _ =>
      .ite (fun _ => scheduleAckTimer_ticks hA _) fun _ => .pure _

/-! ## Acknowledgements and loss -/

/-- Packets are taken off, their timers with them, and nothing else happens. -/
structure Wanes (A : TimerKind → Prop) (O S : Prop) (c c' : Connection) : Prop where
  ticks : Ticks A O S c c'
  state : c'.state = c.state
  limit : c'.config.maxRetransmissions = c.config.maxRetransmissions
  sent : ∀ (n : Nat) (p : SentPacket), c'.transport.sent[n]? = some p →
    c.transport.sent[n]? = some p

instance : IsPreorder Connection (Wanes A O S) where
  refl c := ⟨Std.Refl.refl c, rfl, rfl, fun _ _ h => h⟩
  trans _ _ _ h h' := ⟨h.ticks.trans h'.ticks, h'.state.trans h.state, h'.limit.trans h.limit,
    fun n p hp => h.sent n p (h'.sent n p hp)⟩

theorem sent_of_erase {m : Std.TreeMap Nat SentPacket} {n i : Nat} {p : SentPacket}
    (h : (m.erase n)[i]? = some p) : m[i]? = some p := by
  rw [Std.TreeMap.getElem?_erase] at h
  split at h
  · cases h
  · exact h

/-- A packet is taken off with its timer. -/
theorem wanes_remove {n : Nat} {p : SentPacket} {transport : TransportState}
    (hp : c.transport.sent[n]? = some p) (hsent : transport.sent = c.transport.sent.erase n) :
    Wanes A O S c { c with transport := transport, timers := c.timers.cancel p.timerId } := by
  have hless : ∀ (i : Nat) (q : SentPacket), transport.sent[i]? = some q →
      c.transport.sent[i]? = some q := by
    intro i q hq
    rw [hsent] at hq
    exact sent_of_erase hq
  refine ⟨fun hs => ?_, rfl, rfl, hless⟩
  obtain ⟨hsound, halarms⟩ := cancel_drops hs p.timerId
  refine ⟨hsound, ?_⟩
  have hdrop : Tick A O S c.clock { c.clock with alarms := c.timers.alarms.drop p.timerId } :=
    .drop p.timerId ⟨n, p, hp, rfl⟩
  have hrelease : Tick A O S { c.clock with alarms := c.timers.alarms.drop p.timerId }
      { c.clock with
        alarms := c.timers.alarms.drop p.timerId
        owned := fun id =>
          ∃ (i : Nat) (q : SentPacket), transport.sent[i]? = some q ∧ q.timerId = id } :=
    .release _ fun id ⟨i, q, hq, hid⟩ => ⟨i, q, hless i q hq, hid⟩
  rw [← halarms] at hdrop hrelease
  exact .tail (.single hdrop) hrelease

theorem Still.wanes (h : Still c c') : Wanes A O S c c' :=
  ⟨h.ticks, h.state, h.limit, fun n p hp => by rwa [h.sent] at hp⟩

theorem wanes_of_still {m : ConnM α} (h : Within Still m c) : Within (Wanes A O S) m c :=
  h.mono fun _ => Still.wanes

theorem removeAcked_wanes (numbers : List Nat) (sample : Option Nat) :
    Within (Wanes A O S) (removeAcked numbers sample) c := by
  induction numbers generalizing c sample with
  | nil => exact .pure _
  | cons n rest ih =>
      refine .get_bind ?_
      cases hp : c.transport.sent[n]? with
      | none => exact ih _
      | some packet => exact .modify_bind (wanes_remove hp rfl) (ih _)

theorem removeLost_wanes (numbers : List Nat) : Within (Wanes A O S) (removeLost numbers) c := by
  induction numbers generalizing c with
  | nil => exact .pure _
  | cons n rest ih =>
      refine .get_bind ?_
      cases hp : c.transport.sent[n]? with
      | none => exact ih
      | some packet =>
          exact .modify_bind (wanes_remove hp rfl)
            ((wanes_of_still (requeueLost_still _ _)).bind fun _ _ => ih)

theorem applyAck_wanes (ack : AckFrame) : Within (Wanes A O S) (applyAck ack) c := by
  refine (Within.ofExcept _ _).bind fun _ c₁ => .get_bind ?_
  refine .ite (fun _ => Within.bind (.throw _) fun _ _ => ?_) fun _ => ?_
  all_goals
    refine (removeAcked_wanes _ _).bind fun sample _ => ?_
    cases sample with
    | none => exact .get_bind (removeLost_wanes _)
    | some sample =>
        exact (wanes_of_still (modifyTransport_still rfl rfl)).bind fun _ _ =>
          .get_bind (removeLost_wanes _)

theorem processRetransmit_wanes (n g : Nat) : Within (Wanes A O S) (processRetransmit n g) c := by
  refine .get_bind ?_
  cases hp : c.transport.sent[n]? with
  | none => exact .pure _
  | some packet =>
      refine .ite (fun _ => .pure _) fun _ =>
        .modify_bind ?_ (wanes_of_still (requeueLost_still _ _))
      refine ⟨.of_tick fun hs => ⟨hs, .release _ ?_⟩, rfl, rfl, fun _ _ h => sent_of_erase h⟩
      rintro id ⟨i, q, hq, hid⟩
      exact ⟨i, q, sent_of_erase hq, hid⟩

/-! ## Giving up -/

/-- The packet has been retransmitted as often as it may. -/
def Connection.spent (c : Connection) (n : Nat) : Bool :=
  match c.transport.sent[n]? with
  | some packet => c.config.maxRetransmissions < min (packet.retransmitCount + 1) u32Max
  | none => false

/-- With the ACK a packet is lost that may not be retransmitted again. -/
def Connection.givesUpOn (c : Connection) (ack : AckFrame) : Bool :=
  (c.transport.sent.keys.filter (!ack.covers ·)).any fun n => c.spent n &&
    c.config.fastLossThreshold ≤ ((c.transport.sent.keys.filter ack.covers).filter (n < ·)).length

theorem spent_mono {n : Nat} (hlimit : c'.config.maxRetransmissions = c.config.maxRetransmissions)
    (hsent : ∀ p : SentPacket, c'.transport.sent[n]? = some p → c.transport.sent[n]? = some p)
    (h : c'.spent n = true) : c.spent n = true := by
  unfold Connection.spent at h ⊢
  cases hp : c'.transport.sent[n]? with
  | none =>
      rw [hp] at h
      cases h
  | some p =>
      rw [hp, hlimit] at h
      rw [hsent p hp]
      exact h

theorem requeueLost_limit (frames : List QueuedFrame) (count : Nat) :
    Ends (requeueLost frames count) c (fun _ _ => True) fun e _ =>
      e = .retransmissionLimit → c.config.maxRetransmissions < min (count + 1) u32Max := by
  simp only [requeueLost, ends_steps]
  refine ⟨fun hover _ => hover, fun _ => ?_⟩
  exact (putBackAll_error _ _).mono (fun _ _ _ => trivial) fun _ _ hne heq => absurd heq hne

theorem removeLost_limit (numbers : List Nat) :
    Ends (removeLost numbers) c (fun _ _ => True) fun e _ =>
      e = .retransmissionLimit → ∃ n ∈ numbers, c.spent n = true := by
  induction numbers generalizing c with
  | nil => trivial
  | cons n rest ih =>
      have hlater : ∀ c' : Connection, c'.config.maxRetransmissions = c.config.maxRetransmissions →
          (∀ (i : Nat) (p : SentPacket), c'.transport.sent[i]? = some p →
            c.transport.sent[i]? = some p) →
          Ends (removeLost rest) c' (fun _ _ => True) fun e _ =>
            e = .retransmissionLimit → ∃ i ∈ n :: rest, c.spent i = true := by
        intro c' hlimit hsent
        refine ih.mono (fun _ _ _ => trivial) fun e _ h heq => ?_
        obtain ⟨m, hm, hspent⟩ := h heq
        exact ⟨m, List.mem_cons_of_mem _ hm, spent_mono hlimit (hsent m) hspent⟩
      rw [removeLost, ends_bind, ends_get]
      cases hp : c.transport.sent[n]? with
      | none => exact hlater c rfl fun _ _ h => h
      | some packet =>
          simp only [ends_bind, ends_modify]
          refine ((requeueLost_still _ _).and (requeueLost_limit _ _)).mono (fun _ c₁ h₁ => ?_)
            fun e c₁ h₁ heq => ?_
          · refine hlater c₁ h₁.1.limit fun i p hi => ?_
            rw [h₁.1.sent] at hi
            exact sent_of_erase hi
          · refine ⟨n, List.mem_cons_self, ?_⟩
            unfold Connection.spent
            rw [hp]
            exact decide_eq_true (h₁.2 heq)

/-- The acknowledged packets are taken off. -/
theorem removeAcked_sent (numbers : List Nat) (sample : Option Nat) :
    Ends (removeAcked numbers sample) c
      (fun _ c' => c'.config = c.config ∧ ∀ (i : Nat) (p : SentPacket),
        c'.transport.sent[i]? = some p → i ∉ numbers ∧ c.transport.sent[i]? = some p)
      fun _ _ => False := by
  induction numbers generalizing c sample with
  | nil => exact ⟨rfl, fun _ _ h => ⟨List.not_mem_nil, h⟩⟩
  | cons n rest ih =>
      rw [removeAcked, ends_bind, ends_get]
      cases hp : c.transport.sent[n]? with
      | none =>
          refine (ih _).mono (fun _ c' h => ⟨h.1, fun i p hi => ?_⟩) fun _ _ h => h
          obtain ⟨hout, hold⟩ := h.2 i p hi
          refine ⟨fun hmem => ?_, hold⟩
          rcases List.mem_cons.1 hmem with rfl | hmem
          · rw [hp] at hold
            cases hold
          · exact hout hmem
      | some packet =>
          simp only [ends_bind, ends_modify]
          refine (ih _).mono (fun _ c' h => ⟨h.1, fun i p hi => ?_⟩) fun _ _ h => h
          obtain ⟨hout, hold⟩ := h.2 i p hi
          refine ⟨fun hmem => ?_, sent_of_erase hold⟩
          rcases List.mem_cons.1 hmem with rfl | hmem
          · dsimp only at hold
            rw [Std.TreeMap.getElem?_erase_self] at hold
            cases hold
          · exact hout hmem

/-- An ACK runs into the limit only with a packet that is lost and spent. -/
theorem applyAck_limit (ack : AckFrame) :
    Ends (applyAck ack) c (fun _ _ => True) fun e _ =>
      e = .retransmissionLimit → c.givesUpOn ack = true := by
  simp only [applyAck, ends_steps, ends_ofExcept]
  refine ⟨fun _ _ => ⟨fun _ h => (by cases h), fun _ => ?_⟩, fun _ _ h => by cases h⟩
  refine (removeAcked_sent _ _).mono (fun sample c₁ h₁ => ?_) fun _ _ h => h.elim
  have hlost : ∀ c₂ : Connection, c₂.config = c₁.config → c₂.transport.sent = c₁.transport.sent →
      Ends (removeLost (c₂.transport.sent.keys.filter fun n => c₂.config.fastLossThreshold ≤
        ((c.transport.sent.keys.filter ack.covers).filter (n < ·)).length)) c₂ (fun _ _ => True)
        fun e _ => e = .retransmissionLimit → c.givesUpOn ack = true := by
    intro c₂ hconfig hsent
    refine (removeLost_limit _).mono (fun _ _ _ => trivial) fun e _ h heq => ?_
    obtain ⟨n, hn, hspent⟩ := h heq
    obtain ⟨hkey, hlost⟩ := List.mem_filter.1 hn
    rw [hconfig, h₁.1] at hlost
    have hlimit : c₂.config.maxRetransmissions = c.config.maxRetransmissions := by
      rw [hconfig, h₁.1]
    rw [Std.TreeMap.mem_keys, Std.TreeMap.mem_iff_isSome_getElem?, Option.isSome_iff_exists] at hkey
    obtain ⟨p, hp⟩ := hkey
    rw [hsent] at hp
    obtain ⟨hout, hold⟩ := h₁.2 n p hp
    have hin : n ∈ c.transport.sent.keys := by
      rw [Std.TreeMap.mem_keys, Std.TreeMap.mem_iff_isSome_getElem?, hold]
      rfl
    have huncovered : ack.covers n = false := by
      by_contra hcovered
      exact hout (List.mem_filter.2 ⟨hin, by simpa using hcovered⟩)
    refine List.any_eq_true.2 ⟨n, List.mem_filter.2 ⟨hin, by rw [huncovered]; rfl⟩, ?_⟩
    refine Bool.and_eq_true_iff.2 ⟨spent_mono hlimit (fun q hq => ?_) hspent, hlost⟩
    rw [hsent] at hq
    exact (h₁.2 n q hq).2
  cases sample with
  | none => exact hlost c₁ rfl rfl
  | some sample => exact hlost _ rfl rfl

/-- Where an ACK or a retransmission runs into the limit, the connection turns to
Closing, and has no close timer for it unless it was Closing before. -/
theorem closeOnLimit_ticks {m : ConnM α} (hm : Within (Wanes A O S) m c)
    (hlimit : Ends m c (fun _ _ => True) fun e _ =>
      e = .retransmissionLimit → c.state ≠ .closing → S) :
    Ends (closeOnLimit m) c (fun _ c' => Wanes A O S c c') fun _ c' => Ticks A O S c c' := by
  simp only [closeOnLimit, ends_tryCatch]
  refine (Ends.and hm hlimit).mono (fun _ _ h => h.1) fun e c₁ h => ?_
  simp only [ends_steps]
  refine ⟨fun heq => h.1.ticks.trans ?_, fun _ => h.1.ticks⟩
  by_cases hstate : c.state = .closing
  · have hsame : ({ c₁ with closeError := some 3 } : Connection).state = .closing :=
      h.1.state.trans hstate
    unfold Connection.setState
    rw [if_neg (not_not.2 hsame)]
    exact fun hs => ⟨hs, .refl⟩
  · refine .of_tick fun hs => ⟨?_, ?_⟩
    · rw [Connection.setState_timers]
      exact hs
    · rw [Connection.setState_clock]
      exact .strand (h.2 heq hstate)

/-- What the loop of `apply_ack` does with one frame. -/
def applyAckFrame : Frame → ConnM Unit
  | .ack ack => closeOnLimit (applyAck ack)
  | _ => pure ()

/-- The frame is an ACK with which a packet is given up. -/
def Connection.givesUpAt (c : Connection) : Frame → Bool
  | .ack ack => c.givesUpOn ack
  | _ => false

theorem applyAcks_ticks {frames : List Frame}
    (hS : Along applyAckFrame
      (fun c f _ => c.givesUpAt f = true → c.state ≠ .closing → S) frames c) :
    Within (Ticks A O S) (applyAcks frames) c := by
  induction frames generalizing c with
  | nil => exact .pure _
  | cons f rest ih =>
      cases f with
      | ack ack =>
          have hlimit : Ends (applyAck ack) c (fun _ _ => True) fun e _ =>
              e = .retransmissionLimit → c.state ≠ .closing → S :=
            (applyAck_limit ack).mono (fun _ _ h => h) fun _ _ h heq => hS.1 (h heq)
          rw [applyAcks, Within, ends_bind]
          refine ((closeOnLimit_ticks (applyAck_wanes ack) hlimit).and (Ends.run _ _)).mono
            (fun _ c₁ h => ?_) fun _ _ h => h.1
          exact Within.trans h.1.ticks (ih (hS.next h.2))
      | _ => exact ih (hS.next rfl)

/-! ## Flushing -/

theorem recordSent_ticks (n len : Nat) (queued : QueuedFrame) :
    Within (Ticks A O S) (recordSent n len queued) c := by
  unfold recordSent
  split
  · exact .pure _
  · exact .pure _
  · exact .pure _
  · refine (ticks_of_still (modifyTransport_still rfl rfl)).bind fun _ c₁ => .get_bind ?_
    rw [Within, ends_bind, onTimers, ends_zoom]
    by_cases hs : c₁.timers.Sound
    · refine (schedule_adds hs _ _).mono (fun id t ht => ?_) fun _ t ht => ?_
      · obtain ⟨rfl, hsound, halarms⟩ := ht
        rw [ends_modifyTransport]
        refine .of_tick fun _ => ⟨hsound, ?_⟩
        have htick := fun owned h => Tick.track (A := A) (O := O) (S := S) (v := c₁.clock) n
          c₁.transport.generation owned h
        show Tick A O S c₁.clock { state := c₁.state, alarms := t.alarms, owned := _ }
        rw [halarms]
        refine htick _ ?_
        rintro id ⟨i, p, hp, rfl⟩
        have hp := Std.TreeMap.getElem?_insert.symm.trans hp
        split at hp
        · cases hp
          exact .inr rfl
        · exact .inl ⟨i, p, hp, rfl⟩
      · rw [ht]
        exact Std.Refl.refl c₁
    · exact .of_forall
        (fun _ _ => .of_forall (fun _ _ hs' => absurd hs' hs) fun _ _ hs' => absurd hs' hs)
        fun _ _ hs' => absurd hs' hs

theorem settle_ticks (n len : Nat) (candidate : Candidate) :
    Within (Ticks A O S) (settle n len candidate) c := by
  cases candidate with
  | ack a =>
      refine Within.modify ?_
      exact Ticks.trans (stop_ticks (k := .ack) fun h => by cases h) fun hs => ⟨hs, .refl⟩
  | frame queued =>
      exact .ite (fun _ => (recordSent_ticks n len queued).bind fun _ _ =>
        ticks_of_still (modifyTransport_still rfl rfl)) fun _ => .pure _

theorem flushOnce_ticks : Within (Ticks A O S) flushOnce c := by
  refine (ticks_of_still takeCandidate_still).bind fun r c₁ => ?_
  cases r with
  | none => exact .pure _
  | some candidate =>
      refine .get_bind (.ofExcept_bind fun len _ => .ite (fun _ => ?_) fun _ => ?_)
      · exact (ticks_of_still (requeueCandidate_still candidate)).bind fun _ _ => .pure _
      · split
        · exact .throw _
        · refine .modify_bind (fun hs => ⟨hs, .refl⟩) ?_
          refine (ticks_of_still (flowBlocks_still candidate)).bind fun _ _ =>
            .ite (fun _ => ?_) fun _ => ?_
          · refine (ticks_of_still (requeueCandidate_still candidate)).bind fun _ _ =>
              .modify_bind (fun hs => ⟨hs, .refl⟩) (.pure _)
          · exact (emit_ticks _).bind fun _ _ =>
              (settle_ticks _ len candidate).bind fun _ _ => .pure _

theorem flushLoop_ticks (fuel : Nat) : Within (Ticks A O S) (flushLoop fuel) c := by
  induction fuel generalizing c with
  | zero => exact .pure _
  | succ fuel ih => exact flushOnce_ticks.bind fun _ _ => .ite (fun _ => ih) fun _ => .pure _

theorem flush_ticks : Within (Ticks A O S) flush c := .get_bind (flushLoop_ticks _)

/-! ## The handshake -/

theorem startClient_ticks (hA : A .handshake) (hslot : c.timers.handshake = none)
    (hstate : c.state = .handshaking) : Within (Ticks A O S) (startClient suite) c :=
  .get_bind (.modify_bind (fun hs => ⟨hs, .refl⟩) (.modify_bind (fun hs => ⟨hs, .refl⟩)
    (.modify_bind (fun hs => ⟨hs, .refl⟩)
      (arms_ticks (k := .handshake) rfl (.inl ⟨hA, hslot⟩) hstate))))

/-- An idle connection enters its handshake with the handshake timer set. -/
theorem enterState_ticks {nextState : Option ConnectionState} (hA : A .handshake)
    (hnext : ∀ st, nextState = some st → st = .handshaking ∧ c.state = .idle) :
    Within (Ticks A O S) (enterState nextState) c := by
  cases nextState with
  | none => exact .pure _
  | some st =>
      obtain ⟨rfl, hidle⟩ := hnext st rfl
      rw [enterState, Within, ends_bind, ends_get, ends_bind, onTimers, ends_zoom]
      by_cases hs : c.timers.Sound
      · refine Ends.mono (schedule_sets hs .handshake c.config.handshakeTimeout)
          (fun _ t ht => ?_) fun _ t ht => ?_
        · rw [ends_modify]
          refine .of_tick fun _ => ⟨?_, ?_⟩
          · rw [Connection.setState_timers]
            exact ht.1
          · rw [Connection.setState_clock]
            have htick : Tick A O S c.clock { c.clock with
                state := .handshaking
                alarms := c.timers.alarms.set .handshake TimerKind.handshake.event } :=
              .shake hA hidle
            rwa [← ht.2] at htick
        · rw [ht]
          exact Std.Refl.refl c
      · exact .of_forall (fun _ _ hs' => absurd hs' hs) fun _ _ hs' => absurd hs' hs

theorem processClientHello_ticks (hA : A .handshake) (packetType : PacketType)
    (hello : ClientHello) :
    Within (Ticks A O S) (processClientHello suite packetType hello) c := by
  rw [processClientHello, Within, ends_bind]
  refine (receiveClientHello_still packetType hello).mono (fun r c₁ h₁ => ?_) fun _ _ h => h.ticks
  obtain ⟨frame, nextState, maxOffset⟩ := r
  obtain ⟨h₁, hnext⟩ := h₁
  have henter : ∀ c₂, Still c c₂ → Within (Ticks A O S) (enterState nextState) c₂ := by
    intro c₂ h₂
    refine enterState_ticks hA fun st hst => ?_
    obtain ⟨hshake, hidle⟩ := hnext st hst
    exact ⟨hshake, h₂.state.trans hidle⟩
  have hqueued : Still c { c₁ with
      connectionSend := c₁.connectionSend.learn maxOffset
      handshake := { c₁.handshake with frame := some frame }
      transport := c₁.transport.queue frame } :=
    ⟨h₁.output, h₁.state, h₁.limit, h₁.next, h₁.timers, h₁.sent⟩
  simp only [ends_steps, ends_modifyHandshake]
  refine ⟨fun _ => ?_, fun _ => Within.trans hqueued.ticks (henter _ hqueued)⟩
  refine Ends.mono activateCrypto_still (fun _ c₂ h₂ => ?_) fun _ _ h₂ =>
    hqueued.ticks.trans h₂.ticks
  have hstill : Still c c₂ := IsTrans.trans c _ c₂ hqueued h₂
  exact Within.trans hstill.ticks (henter c₂ hstill)

/-- The handshake is over: its timer is taken back and the connection is
Established. -/
theorem establish_ticks {handshake : HandshakeState} {config : ConnectionConfig}
    {transport : TransportState} {connectionSend : SendFlowControl}
    (hsent : transport.sent = c.transport.sent) (hstate : c.state = .handshaking) :
    Ticks A O S c (Connection.setState { c with
      handshake := handshake
      config := config
      transport := transport
      connectionSend := connectionSend
      timers := c.timers.cancelHandshake } .established) := by
  have hstopped : Ticks A O S c { c with
      handshake := handshake
      config := config
      transport := transport
      connectionSend := connectionSend
      timers := c.timers.cancelHandshake } := by
    refine Ticks.trans (stop_ticks (k := .handshake) fun h => by cases h) fun hs => ⟨hs, ?_⟩
    unfold Connection.clock
    rw [hsent]
    exact .refl
  refine hstopped.trans (.of_tick fun hs => ⟨?_, ?_⟩)
  · rw [Connection.setState_timers]
    exact hs
  · rw [Connection.setState_clock]
    exact .establish hstate

theorem processServerHello_ticks (packetType : PacketType) (hello : ServerHello) :
    Within (Ticks A O S) (processServerHello suite packetType hello) c := by
  have hstill : ∀ {h : HandshakeState} {conf : ConnectionConfig},
      Ticks A O S c { c with handshake := h, config := conf } := fun hs => ⟨hs, .refl⟩
  simp only [processServerHello, receiveServerHello, Within, ends_steps, ends_modifyHandshake]
  refine ⟨fun _ => Std.Refl.refl c, fun hguard => ?_⟩
  have hstate : c.state = .handshaking := by
    by_contra hne
    exact hguard (by simp [hne])
  split
  · exact hstill
  · simp only [ends_bind, ends_ofExcept, ends_modifyHandshake, ends_pure]
    refine ⟨fun _ _ => ⟨fun _ _ => ⟨fun _ _ => ?_, fun _ _ => hstill⟩, fun _ _ => hstill⟩,
      fun _ _ => hstill⟩
    exact Within.trans (establish_ticks rfl hstate) (ticks_of_still activateCrypto_still)

theorem processHandshakeAck_ticks (packetType : PacketType) (ack : HandshakeAck) :
    Within (Ticks A O S) (processHandshakeAck suite packetType ack) c := by
  have hsame : Ticks A O S c c := Std.Refl.refl c
  simp only [processHandshakeAck, receiveHandshakeAck, Within, ends_steps]
  refine ⟨fun _ => hsame, fun hguard => ?_⟩
  have hstate : c.state = .handshaking := by
    by_contra hne
    exact hguard (by simp [hne])
  split
  · exact hsame
  · split
    · exact hsame
    · simp only [ends_bind, ends_ofExcept, ends_modify]
      refine ⟨fun _ _ => ?_, fun _ _ => hsame⟩
      exact Within.trans (establish_ticks rfl hstate) (ticks_of_still activateCrypto_still)

/-- A Retry that the client starts over with sets the handshake timer again while it
is set. -/
def Connection.rearms (c : Connection) (packetType : PacketType) : Frame → Bool
  | .retry cookie =>
      c.timers.handshake.isSome && c.role = .client && packetType = .retry &&
        c.state = .handshaking && 0 < cookie.length && cookie.length ≤ maxCookieLen &&
        c.handshake.clientNonce.isSome && c.timers.takes c.config.handshakeTimeout
  | _ => false

theorem processRetry_ticks (hA : A .handshake) (packetType : PacketType) (cookie : Bytes)
    (hO : c.rearms packetType (.retry cookie) = true → O) :
    Within (Ticks A O S) (processRetry suite packetType cookie) c := by
  have hreceived : Ends (receiveRetry suite packetType cookie) c
      (fun _ c' => Still c c' ∧ c.state = .handshaking ∧
        c'.config.handshakeTimeout = c.config.handshakeTimeout ∧
        c.rearms packetType (.retry cookie) =
          (c.timers.handshake.isSome && c.timers.takes c.config.handshakeTimeout))
      fun _ c' => Still c c' := by
    simp only [receiveRetry, ends_steps, ends_modifyHandshake]
    refine ⟨fun _ => Std.Refl.refl c, fun hguard => ⟨fun _ => Std.Refl.refl c, fun hnonce => ?_⟩⟩
    simp only [ne_eq, Bool.or_eq_true, decide_eq_true_eq, not_or, not_not, List.isEmpty_iff,
      Nat.not_lt] at hguard
    obtain ⟨⟨⟨⟨hrole, htype⟩, hstate⟩, hcookie⟩, hlen⟩ := hguard
    have hnonce : c.handshake.clientNonce.isSome = true := by
      cases hfirst : c.handshake.clientNonce with
      | none => exact absurd (by rw [hfirst]; rfl) hnonce
      | some nonce => rfl
    refine ⟨⟨rfl, rfl, rfl, rfl, rfl, rfl⟩, hstate, trivial, ?_⟩
    have hpos : 0 < cookie.length := List.length_pos_iff.2 hcookie
    simp only [Connection.rearms, hrole, htype, hstate, hpos, hlen, hnonce, decide_true,
      Bool.and_true]
  rw [processRetry, Within, ends_bind]
  refine hreceived.mono (fun frame c₁ h => ?_) fun _ _ h => h.ticks
  obtain ⟨hstill, hstate, hconfig, hrearms⟩ := h
  rw [hrearms] at hO
  simp only [ends_steps]
  have hqueued : Still c (c₁.queueFront frame) :=
    ⟨hstill.output, hstill.state, hstill.limit, hstill.next, hstill.timers, hstill.sent⟩
  rw [show (c₁.queueFront frame).config.handshakeTimeout = c.config.handshakeTimeout from hconfig]
  refine Within.trans hqueued.ticks (arms_ticks (k := .handshake) rfl ?_
    (hqueued.state.trans hstate))
  rw [hqueued.timers]
  cases hset : c.timers.handshake with
  | none => exact .inl ⟨hA, hset⟩
  | some id =>
      refine .inr fun htaken => hO ?_
      rw [hset, htaken]
      rfl

/-! ## Frames and packets received -/

theorem processStreamOpen_ticks (packetType : PacketType) (frame : StreamOpen) :
    Within (Ticks A O S) (processStreamOpen packetType frame) c := by
  have hinserted : ∀ c₁ c' : Connection, Within (Ticks A O S) (do
      onStreams (insertStream frame.streamId frame.bidirectional frame.initialReceiveWindow
        c₁.role.peerStreamParity c₁.config.initialStreamWindow)
      modify (·.emit (.streamOpened frame.streamId))) c' := fun _ _ =>
    (ticks_of_still (onStreams_still _)).bind fun _ _ => emit_ticks _
  refine (ticks_of_still (ensureData_still packetType)).bind fun _ c₁ => .get_bind ?_
  refine .ite (fun _ => Within.bind (.throw _) fun _ _ => ?_) fun _ => ?_
  all_goals
    split
    · exact .ite (fun _ => .throw _) fun _ => .pure _
    · exact .ite (fun _ => Within.bind (.throw _) fun _ _ => hinserted _ _)
        fun _ => hinserted _ _

theorem processStreamData_ticks (packetType : PacketType) (data : StreamData) :
    Within (Ticks A O S) (processStreamData packetType data) c := by
  refine (ticks_of_still (ensureData_still packetType)).bind fun _ c₁ => .get_bind ?_
  refine (ticks_of_still (onStreams_still _)).bind fun newBytes _ => ?_
  split
  · exact .throw _
  · refine (Within.ofExcept _ _).bind fun _ _ => (ticks_of_still (onStreams_still _)).bind
      fun status _ => (Within.ofExcept _ _).bind fun _ _ => .modify_bind (fun hs => ⟨hs, .refl⟩) ?_
    have hfinished : ∀ c', Within (Ticks A O S) (do
        if status.finished && !status.readable then
          modify fun c => { c with streams := c.streams.finish data.streamId }
          modify (·.emit (.streamFinished data.streamId))) c' := fun _ =>
      .ite (fun _ => .modify_bind (fun hs => ⟨hs, .refl⟩) (emit_ticks _)) fun _ => .pure _
    have hreadable : ∀ c', Within (Ticks A O S) (do
        if status.readable then modify (·.emit (.streamReadable data.streamId))
        if status.finished && !status.readable then
          modify fun c => { c with streams := c.streams.finish data.streamId }
          modify (·.emit (.streamFinished data.streamId))) c' := fun _ =>
      .ite (fun _ => (emit_ticks _).bind fun _ _ => hfinished _) fun _ => hfinished _
    exact .ite (fun _ => Within.bind (.throw _) fun _ _ => hreadable _) fun _ => hreadable _

/-- A connection that ends has no timer left. -/
theorem finish_ticks (e : Option Nat) (code : Nat) :
    Ticks A O S c (({ c with closeError := e, timers := c.timers.cancelAll }.setState .closed).emit
      (.connectionClosed code)) := by
  refine .of_tick fun hs => ⟨?_, ?_⟩
  · show (Connection.setState _ _).timers.Sound
    rw [Connection.setState_timers]
    exact TimerState.cancelAll_sound hs
  · show Tick A O S c.clock (Connection.setState _ _).clock
    rw [Connection.setState_clock]
    have htick : Tick A O S c.clock
        { c.clock with state := .closed, alarms := c.timers.alarms.clear } :=
      .finish
    rwa [← cancelAll_clears hs] at htick

theorem processFrame_ticks (hA : A .handshake) (packetType : PacketType) (f : Frame)
    (hO : c.rearms packetType f = true → O) :
    Within (Ticks A O S) (processFrame suite packetType f) c := by
  cases f with
  | clientHello hello => exact processClientHello_ticks hA packetType hello
  | serverHello hello => exact processServerHello_ticks packetType hello
  | handshakeAck ack => exact processHandshakeAck_ticks packetType ack
  | retry cookie => exact processRetry_ticks hA packetType cookie hO
  | streamOpen frame => exact processStreamOpen_ticks packetType frame
  | streamData data => exact processStreamData_ticks packetType data
  | resetStream reset =>
      exact (ticks_of_still (ensureData_still packetType)).bind fun _ _ =>
        (ticks_of_still (onStreams_still _)).bind fun _ _ => emit_ticks _
  | maxStreamData update =>
      exact ticks_of_still ((ensureData_still packetType).bind fun _ _ => onStreams_still _)
  | maxData maxOffset =>
      exact (ticks_of_still (ensureData_still packetType)).bind fun _ _ =>
        Within.modify fun hs => ⟨hs, .refl⟩
  | ping nonce =>
      exact (ticks_of_still (ensureData_still packetType)).bind fun _ _ =>
        Within.modify fun hs => ⟨hs, .refl⟩
  | pong nonce => exact .pure _
  | connectionClose frame =>
      exact .ite (fun _ => Within.bind (.throw _) fun _ _ => Within.modify (finish_ticks _ _))
        fun _ => Within.modify (finish_ticks _ _)
  | ack a => exact .pure _

theorem processFrames_ticks (hA : A .handshake) (packetType : PacketType) {frames : List Frame}
    (hO : Along (processFrame suite packetType)
      (fun c f _ => c.rearms packetType f = true → O) frames c) :
    Within (Ticks A O S) (processFrames suite packetType frames) c := by
  induction frames generalizing c with
  | nil => exact .pure _
  | cons f rest ih =>
      refine .ite (fun _ => ?_) fun hack => ?_
      · rw [Within, ends_bind]
        refine (Ends.and (processFrame_ticks hA packetType f hO.1) (Ends.run _ _)).mono
          (fun _ c₁ h => ?_) fun _ _ h => h.1
        exact Within.trans h.1 (ih (hO.next h.2))
      · cases f with
        | ack a => exact ih (hO.next rfl)
        | _ => exact absurd rfl hack

theorem onDatagram_ticks (hA : ∀ k, A k) (p : Packet)
    (hS : ∀ isNew c', receivePacket p c = .ok isNew c' →
      Along applyAckFrame (fun c f _ => c.givesUpAt f = true → c.state ≠ .closing → S) p.frames c')
    (hO : ∀ isNew c₁ c₂, receivePacket p c = .ok isNew c₁ → applyAcks p.frames c₁ = .ok () c₂ →
      Along (processFrame suite p.packetType)
        (fun c f _ => c.rearms p.packetType f = true → O) p.frames c₂) :
    Within (Ticks A O S) (onDatagram suite p) c := by
  have hreceived : Within (Ticks A O S) (receivePacket p) c := by
    refine .get_bind (.ite (fun _ => Within.bind (.throw _) fun _ _ => ?_) fun _ => ?_)
    all_goals
      refine .ite (fun _ => Within.bind (.throw _) fun _ _ => ?_) fun _ => ?_
      all_goals
        exact (scheduleIdle_ticks (hA .idle) _).bind fun _ _ =>
          ticks_of_still (recordReceived_still p)
  have hanswered : ∀ c', Within (Ticks A O S) (do
      if p.frames.any Frame.isAckEliciting then scheduleAck
      flush) c' := fun c' =>
    .ite (fun _ => (scheduleAck_ticks (hA .ack)).bind fun _ _ => flush_ticks) fun _ => flush_ticks
  rw [onDatagram_eq, Within, ends_bind]
  refine (Ends.and hreceived (Ends.run _ _)).mono (fun isNew c₁ h₁ => ?_) fun _ _ h₁ => h₁.1
  refine Within.trans h₁.1 ?_
  rw [handlePacket, Within, ends_bind]
  refine (Ends.and (applyAcks_ticks (hS isNew c₁ h₁.2)) (Ends.run _ _)).mono (fun _ c₂ h₂ => ?_)
    fun _ _ h₂ => h₂.1
  refine Within.trans h₂.1 (.ite (fun _ => ?_) fun _ => hanswered c₂)
  exact (processFrames_ticks (hA .handshake) p.packetType (hO isNew c₁ c₂ h₁.2 h₂.2)).bind
    fun _ c₃ => hanswered c₃

/-! ## Calls of the application -/

theorem openStream_ticks : Within (Ticks A O S) openStream c := by
  refine (ticks_of_still (ensureEstablished_still _)).bind fun _ c₁ => .get_bind ?_
  have hopened : ∀ c', Within (Ticks A O S) (do
      let streamId ← onStreams (openLocal c₁.role c₁.handshake.peerInitialStreamWindow
        c₁.config.initialStreamWindow)
      modify (·.queue (.streamOpen ⟨streamId, c₁.handshake.peerInitialStreamWindow, true⟩))
      flush
      return streamId) c' := fun _ =>
    (ticks_of_still (onStreams_still _)).bind fun _ _ =>
      .modify_bind (fun hs => ⟨hs, .refl⟩) (flush_ticks.bind fun _ _ => .pure _)
  exact .ite (fun _ => Within.bind (.throw _) fun _ _ => hopened _) fun _ => hopened _

theorem writeStream_ticks (streamId : Nat) (data : Bytes) (fin : Bool) :
    Within (Ticks A O S) (writeStream streamId data fin) c :=
  (ticks_of_still (ensureEstablished_still _)).bind fun _ _ => .get_bind <|
    (ticks_of_still (onStreams_still _)).bind fun _ _ => flush_ticks.bind fun _ _ => .pure _

theorem readStream_ticks (streamId maxLen : Nat) :
    Within (Ticks A O S) (readStream streamId maxLen) c := by
  refine (ticks_of_still (onStreams_still _)).bind fun r c₁ => ?_
  obtain ⟨data, eof, windowUpdate⟩ := r
  have hended : ∀ c₂, Within (Ticks A O S) (do
      if eof then modify (·.emit (.streamFinished streamId))
      flush
      return (⟨data, eof⟩ : ReadResult)) c₂ := fun c₂ =>
    .ite (fun _ => (emit_ticks _).bind fun _ _ => flush_ticks.bind fun _ _ => .pure _)
      fun _ => flush_ticks.bind fun _ _ => .pure _
  have hconsumed : ∀ c₂, Within (Ticks A O S) (do
      if !data.isEmpty then
        modify fun c =>
          { c with connectionReceive := (c.connectionReceive.consume data.length).2 }
      if eof then modify (·.emit (.streamFinished streamId))
      flush
      return (⟨data, eof⟩ : ReadResult)) c₂ := fun c₂ =>
    .ite (fun _ => .modify_bind (fun hs => ⟨hs, .refl⟩) (hended _)) fun _ => hended _
  cases windowUpdate with
  | none => exact hconsumed c₁
  | some maxOffset => exact .modify_bind (fun hs => ⟨hs, .refl⟩) (hconsumed _)

/-- The wheel takes a close timer. -/
def Connection.canClose (c : Connection) : Bool := c.timers.takes c.config.closeTimeout

/-- A close sets the close timer as it turns the connection to Closing. Closing
again, it sets another. -/
theorem close_ticks (errorCode : Nat) (reason : Bytes)
    (hA : c.state ≠ .closed → A .close)
    (hO : c.state = .closing → c.timers.close.isSome = true → c.canClose = true → O)
    (hS : c.state.rank < ConnectionState.closing.rank → c.canClose = false → S) :
    Within (Ticks A O S) (close errorCode reason) c := by
  refine .get_bind (.ite (fun _ => .pure _) fun hopen => ?_)
  have htimers : (({ c with closeError := some errorCode }.setState .closing).queue
      (.connectionClose ⟨errorCode, 0, reason⟩)).timers = c.timers :=
    Connection.setState_timers { c with closeError := some errorCode } .closing
  have hclock : (({ c with closeError := some errorCode }.setState .closing).queue
      (.connectionClose ⟨errorCode, 0, reason⟩)).clock = { c.clock with state := .closing } :=
    Connection.setState_clock { c with closeError := some errorCode } .closing
  have hconfig : (({ c with closeError := some errorCode }.setState .closing).queue
      (.connectionClose ⟨errorCode, 0, reason⟩)).config = c.config := by
    show (Connection.setState _ _).config = _
    unfold Connection.setState
    split <;> rfl
  rw [Within, ends_bind, ends_modify, ends_bind, ends_get, hconfig]
  generalize (({ c with closeError := some errorCode }.setState .closing).queue
      (.connectionClose ⟨errorCode, 0, reason⟩)) = c₁ at htimers hclock
  have hstate₁ : c₁.state = .closing := congrArg Clock.state hclock
  have htimed : Within (Ticks A O S) (onTimers (scheduleClose c.config.closeTimeout)) c₁ →
      Ticks A O S c c₁ → Ends (do
        onTimers (scheduleClose c.config.closeTimeout)
        flush) c₁ (fun _ c' => Ticks A O S c c') fun _ c' => Ticks A O S c c' :=
    fun hset hturned => Within.trans hturned (hset.bind fun _ _ => flush_ticks)
  by_cases hclosing : c.state = .closing
  · refine htimed (arms_ticks (k := .close) rfl ?_ hstate₁) fun hs => ⟨htimers ▸ hs, ?_⟩
    · rw [htimers]
      cases hslot : c.timers.close with
      | none => exact .inl ⟨hA hopen, hslot⟩
      | some id => exact .inr (hO hclosing (by rw [hslot]; rfl))
    · rw [hclock, ← hclosing]
      exact .refl
  · -- The close timer is set together with the state, or not at all.
    have hrank := ConnectionState.rank_lt_closing hopen hclosing
    rw [ends_bind, onTimers, ends_zoom, htimers]
    by_cases hs : c.timers.Sound
    · refine (Ends.and (schedule_sets hs .close c.config.closeTimeout)
        (sets_takes hs .close c.config.closeTimeout)).mono (fun _ t ht => ?_) fun e t ht => ?_
      · refine Within.trans (.of_tick fun _ => ⟨ht.1.1, ?_⟩) flush_ticks
        have htick : Tick A O S c.clock { c.clock with
            state := .closing
            alarms := c.timers.alarms.set .close TimerKind.close.event } := .close (hA hopen) hrank
        rw [← ht.1.2] at htick
        show Tick A O S c.clock { c₁.clock with alarms := t.alarms }
        rwa [hclock]
      · refine .of_tick fun _ => ⟨ht.1 ▸ hs, ?_⟩
        rw [ht.1, ← htimers]
        show Tick A O S c.clock c₁.clock
        rw [hclock]
        exact .strand (hS hrank ht.2.1)
    · exact .of_forall (fun _ _ => .of_forall (fun _ _ hs' => absurd hs' hs)
        fun _ _ hs' => absurd hs' hs) fun _ _ hs' => absurd hs' hs

theorem drainOutput_ticks : Within (Ticks A O S) drainOutput c := fun hs => ⟨hs, .refl⟩

/-! ## Timers that go off -/

/-- What the loop of `advance_time` does with one event. -/
def dealTimer (event : TimerEvent) : ConnM Unit := do
  modify fun c => { c with timers := c.timers.clearSlot event }
  processTimer event

theorem processTimers_eq (event : TimerEvent) (rest : List TimerEvent) :
    processTimers (event :: rest) = dealTimer event >>= fun _ => processTimers rest := by
  rw [dealTimer, bind_assoc]
  rfl

/-- The event closes the connection. -/
def Connection.closesAt (c : Connection) : TimerEvent → Bool
  | .handshakeTimeout => c.state = .handshaking &&
      (c.handshake.frame.isNone || c.config.maxRetransmissions ≤ c.handshake.retries)
  | .idleTimeout => c.state ≠ .closed && c.state ≠ .closing
  | _ => false

theorem onHandshakeTimeout_ticks (hA : A .handshake) (hslot : c.timers.handshake = none)
    (hstate : c.state = .handshaking) :
    Ends onHandshakeTimeout c
      (fun r c' => Ticks A O S c c' ∧ (r = true → c' = c ∧ c.closesAt .handshakeTimeout = true))
      fun _ c' => Ticks A O S c c' := by
  have hsame : Ticks A O S c c := Std.Refl.refl c
  have hcloses : c.closesAt .handshakeTimeout =
      (c.handshake.frame.isNone || decide (c.config.maxRetransmissions ≤ c.handshake.retries)) := by
    unfold Connection.closesAt
    rw [decide_eq_true hstate, Bool.true_and]
  simp only [onHandshakeTimeout, ends_steps]
  refine ⟨fun hne => absurd hstate hne, fun _ => ?_⟩
  cases hframe : c.handshake.frame with
  | none =>
      refine ⟨hsame, fun _ => ⟨rfl, ?_⟩⟩
      rw [hcloses, hframe]
      rfl
  | some frame =>
      simp only [ends_steps, ends_modifyHandshake]
      refine ⟨fun hspent => ⟨hsame, fun _ => ⟨trivial, ?_⟩⟩, fun _ => ?_⟩
      · rw [hcloses, decide_eq_true hspent, Bool.or_true]
      · have hqueued : Ticks A O S c (Connection.queueFront { c with
            handshake :=
              { c.handshake with retries := min (c.handshake.retries + 1) u32Max } } frame) :=
          fun hs => ⟨hs, .refl⟩
        exact (Within.trans hqueued
          (arms_ticks (k := .handshake) rfl (.inl ⟨hA, hslot⟩) hstate)).mono
          (fun _ _ h => ⟨h, fun h => by cases h⟩) fun _ _ h => h

/-- An event that is dealt with, its slot empty. It may set its own timer again,
and the close timer if it closes the connection. -/
theorem processTimer_ticks {event : TimerEvent}
    (hslot : ∀ k : TimerKind, event = k.event → c.timers.slot k = none)
    (hA : ∀ k : TimerKind, event = k.event → A k)
    (hclose : c.state.rank < ConnectionState.closing.rank → A .close)
    (hgives : c.givesUp event = true → c.state ≠ .closing → S)
    (hcloses : c.closesAt event = true → c.canClose = false → S) :
    Within (Ticks A O S) (processTimer event) c := by
  have hclosed : ∀ (code : Nat) (reason : Bytes), c.state.rank < ConnectionState.closing.rank →
      c.closesAt event = true → Within (Ticks A O S) (close code reason) c := by
    intro code reason hrank hat
    refine close_ticks code reason (fun _ => hclose hrank) (fun hst => ?_) fun _ => hcloses hat
    rw [hst] at hrank
    exact absurd hrank (Nat.lt_irrefl _)
  cases event with
  | handshakeTimeout =>
      refine .get_bind (.ite (fun hstate => ?_) fun _ => .pure _)
      rw [Within, ends_bind]
      refine (onHandshakeTimeout_ticks (hA .handshake rfl) (hslot .handshake rfl) hstate).mono
        (fun r c₁ h => ?_) fun _ _ h => h
      rw [ends_ite]
      refine ⟨fun hr => ?_, fun _ => h.1⟩
      obtain ⟨rfl, hat⟩ := h.2 hr
      refine hclosed _ _ ?_ hat
      rw [hstate]
      decide
  | retransmit n g =>
      have hlimit : Ends (processRetransmit n g) c (fun _ _ => True) fun e _ =>
          e = .retransmissionLimit → c.state ≠ .closing → S :=
        (processRetransmit_ends 0 n g).mono (fun _ _ _ => trivial) fun _ _ h heq => hgives (h heq)
      exact (closeOnLimit_ticks (processRetransmit_wanes n g) hlimit).mono
        (fun _ _ h => h.ticks) fun _ _ h => h
  | ackDelay =>
      refine Within.modify fun hs => ⟨hs, ?_⟩
      have hsent : c.transport.onAckTimer.sent = c.transport.sent := by
        unfold TransportState.onAckTimer
        split <;> rfl
      unfold Connection.clock
      rw [hsent]
  | keepalive =>
      have hset : ∀ (c₁ : Connection) (interval : Nat), c₁.timers = c.timers →
          Within (Ticks A O S) (onTimers (scheduleKeepalive interval)) c₁ := by
        intro c₁ interval htimers
        refine arms_ticks (k := .keepalive) rfl (.inl ⟨hA .keepalive rfl, ?_⟩) trivial
        rw [htimers]
        exact hslot .keepalive rfl
      refine .get_bind (.ite (fun _ => .modify_bind (fun hs => ⟨hs, .refl⟩) (.get_bind ?_))
        fun _ => .get_bind ?_)
      all_goals
        split
        · exact hset _ _ rfl
        · exact .pure _
  | idleTimeout =>
      refine .get_bind (.ite (fun hopen => ?_) fun _ => .pure _)
      have hat : c.closesAt .idleTimeout = true := hopen
      simp only [ne_eq, decide_not, Bool.and_eq_true, Bool.not_eq_eq_eq_not, Bool.not_true,
        decide_eq_false_iff_not] at hopen
      exact hclosed _ _ (ConnectionState.rank_lt_closing hopen.1 hopen.2) hat
  | closeTimeout => exact Within.modify (finish_ticks _ _)

/-! ## What every tick keeps -/

/-- The ids are in order, and no packet holds the id of a timer that has a slot. -/
structure Clock.Based (v : Clock) : Prop where
  ordered : v.alarms.Ordered TimerKind.event
  foreign : ∀ id, v.owned id → v.alarms.Foreign TimerKind.event id

theorem Tick.based {v v' : Clock} (h : Tick A O S v v') (hv : v.Based) : v'.Based := by
  have hset : ∀ k : TimerKind, ∀ st, Clock.Based ⟨st, v.alarms.set k k.event, v.owned⟩ := fun k _ =>
    ⟨hv.ordered.set TimerKind.event_injective k,
      fun id hid => (hv.foreign id hid).ages (v.alarms.ages_set k k.event)⟩
  cases h with
  | set k hA hslot hfits => exact hset k _
  | overwrite k hO hfits => exact hset k _
  | stop k hk =>
      exact ⟨hv.ordered.stop k, fun id hid => (hv.foreign id hid).ages (v.alarms.ages_stop k)⟩
  | track n g owned hown =>
      refine ⟨hv.ordered.add _, fun id hid => ?_⟩
      rcases hown id hid with hold | rfl
      · exact (hv.foreign id hold).ages (v.alarms.ages_add _)
      · refine ⟨Nat.lt_succ_self _, fun k hlive => ?_⟩
        rw [Alarms.add_live_self, Option.some_inj] at hlive
        exact retransmit_ne_event n g k hlive
  | drop id hid =>
      exact ⟨hv.ordered.drop id, fun i hi => (hv.foreign i hi).ages (v.alarms.ages_drop id)⟩
  | release owned hown => exact ⟨hv.ordered, fun id hid => hv.foreign id (hown id hid)⟩
  | shake hA hstate => exact hset .handshake _
  | establish hstate => exact ⟨hv.ordered, hv.foreign⟩
  | close hA hstate => exact hset .close _
  | strand hS => exact ⟨hv.ordered, hv.foreign⟩
  | finish => exact ⟨hv.ordered.clear, fun id hid => (hv.foreign id hid).ages v.alarms.ages_clear⟩

/-- So does emptying a slot. -/
theorem clearSlot_based (hsound : c.timers.Sound) (hbased : c.clock.Based) (event : TimerEvent) :
    (c.timers.clearSlot event).Sound ∧
      ({ c with timers := c.timers.clearSlot event } : Connection).clock.Based := by
  have hwheel : (c.timers.clearSlot event).wheel = c.timers.wheel := by cases event <;> rfl
  refine ⟨TimerState.sound_of_wheel hwheel hsound, ?_⟩
  rcases event.kind_or_retransmit with ⟨k, rfl⟩ | ⟨n, g, rfl⟩
  · have halarms := clearSlot_forgets c.timers k
    refine ⟨?_, fun id hid => ?_⟩
    · show (c.timers.clearSlot k.event).alarms.Ordered TimerKind.event
      rw [halarms]
      exact hbased.ordered.forget k
    · show (c.timers.clearSlot k.event).alarms.Foreign TimerKind.event id
      rw [halarms]
      exact ⟨(hbased.foreign id hid).old, (hbased.foreign id hid).other⟩
  · exact hbased

/-- So does an advance, which takes off the timers that go off. -/
theorem advance_based (hsound : c.timers.Sound) (hbased : c.clock.Based) (elapsed : Nat) :
    Ends (advance elapsed) c.timers
      (fun events t => ∃ ids : List Nat,
        ids.Nodup ∧ events.map some = ids.map c.timers.alarms.live ∧ t.Sound ∧
        ({ c with now := c.now + elapsed, timers := t } : Connection).clock =
          { c.clock with alarms := c.timers.alarms.expire ids } ∧
        ({ c with now := c.now + elapsed, timers := t } : Connection).clock.Based)
      fun _ t => t.Sound ∧
        ({ c with now := c.now + elapsed, timers := t } : Connection).clock = c.clock := by
  refine (advance_expires hsound elapsed).mono (fun events t ht => ?_) fun _ t ht => ⟨ht.1, ?_⟩
  · obtain ⟨ids, hnodup, hdue, hsound', halarms⟩ := ht
    have hclock : ({ c with now := c.now + elapsed, timers := t } : Connection).clock =
        { c.clock with alarms := c.timers.alarms.expire ids } := by
      rw [← halarms]
      rfl
    refine ⟨ids, hnodup, hdue, hsound', hclock, ?_⟩
    rw [hclock]
    exact ⟨hbased.ordered.expire ids, fun id hid =>
      (hbased.foreign id hid).ages (c.timers.alarms.ages_expire ids)⟩
  · unfold Connection.clock
    rw [← ht.2]

/-- What each tick keeps under its own conditions, a sequence keeps. -/
theorem Ticks.keeps {I : Clock → Prop} (h : Ticks A O S c c')
    (htick : ∀ v v', Tick A O S v v' → v.Based → I v → I v')
    (hc : c.timers.Sound ∧ c.clock.Based ∧ I c.clock) :
    c'.timers.Sound ∧ c'.clock.Based ∧ I c'.clock := by
  obtain ⟨hsound, hbased, hI⟩ := hc
  obtain ⟨hsound', hticks⟩ := h hsound
  refine ⟨hsound', ?_⟩
  generalize c'.clock = v' at hticks
  induction hticks with
  | refl => exact ⟨hbased, hI⟩
  | tail _ hstep ih => exact ⟨hstep.based ih.1, htick _ _ hstep ih.1 ih.2⟩

/-! ## The start -/

theorem schedule_slots (event : TimerEvent) (delay : Nat) (t : TimerState) :
    Ends (schedule event delay) t (fun _ t' => t'.slot = t.slot) fun _ _ => True := by
  unfold Ends schedule onWheel
  dsimp only
  split
  · next h =>
      split at h
      · cases h
        rfl
      · cases h
  · trivial

theorem start_ticks (hA : ∀ k, A k) {startHandshake : Bool} (hslots : ∀ k, c.timers.slot k = none)
    (hstate : startHandshake = true → c.state = .handshaking) :
    Ends (start suite startHandshake) c (fun _ c' => Ticks A O S c c') fun _ _ => True := by
  have hshake : ∀ c₁, Ticks A O S c c₁ → c₁.timers.handshake = none → c₁.state = c.state →
      Ends (do
        if startHandshake then
          startClient suite
          flush) c₁ (fun _ c' => Ticks A O S c c') fun _ _ => True := by
    intro c₁ h₁ hnone hsame
    have hstarted : Within (Ticks A O S) (do
        if startHandshake then
          startClient suite
          flush) c₁ :=
      .ite (fun hstart => (startClient_ticks (hA .handshake) hnone
        (hsame.trans (hstate hstart))).bind fun _ _ => flush_ticks) fun _ => .pure _
    exact (Within.trans h₁ hstarted).mono (fun _ _ h => h) fun _ _ _ => trivial
  have hkept : ∀ (k : TimerKind) {m : TimerM Unit} {t₀ : TimerState} {delay : Nat},
      (m = do
        let timer ← schedule k.event delay
        modify (·.withSlot (some timer) k)) →
      Ends m t₀ (fun _ t => ∀ k' ≠ k, t.slot k' = t₀.slot k') fun _ _ => True := by
    rintro k _ t₀ delay rfl
    simp only [ends_bind, ends_modify]
    refine (schedule_slots k.event delay t₀).mono (fun id t ht k' hk => ?_) fun _ _ _ => trivial
    rw [TimerState.withSlot_slot, Function.update_of_ne hk, ht]
  rw [start, ends_bind, ends_get, ends_bind]
  have hidle : Ends (onTimers (scheduleIdle c.config.idleTimeout)) c
      (fun _ c₁ => c₁.timers.keepalive = none ∧ c₁.timers.handshake = none ∧ c₁.state = c.state)
      fun _ _ => True := by
    have hnone : c.timers.idle = none := hslots .idle
    rw [onTimers, ends_zoom, scheduleIdle, ends_bind, ends_modify, hnone]
    refine Ends.mono (hkept .idle rfl) (fun _ t ht => ⟨?_, ?_, rfl⟩) fun _ _ _ => trivial
    · exact (ht .keepalive fun h => by cases h).trans (hslots .keepalive)
    · exact (ht .handshake fun h => by cases h).trans (hslots .handshake)
  have hticks : Within (Ticks A O S) (onTimers (scheduleIdle c.config.idleTimeout)) c :=
    scheduleIdle_ticks (hA .idle) _
  refine (Ends.and hticks hidle).mono (fun _ c₁ h₁ => ?_) fun _ _ _ => trivial
  obtain ⟨h₁, hkeepalive, hhandshake, hsame⟩ := h₁
  cases c.config.keepaliveInterval with
  | none => exact hshake c₁ h₁ hhandshake hsame
  | some interval =>
      rw [ends_bind]
      have hset : Within (Ticks A O S) (onTimers (scheduleKeepalive interval)) c₁ :=
        arms_ticks (k := .keepalive) rfl (.inl ⟨hA .keepalive, hkeepalive⟩) trivial
      have hother : Ends (onTimers (scheduleKeepalive interval)) c₁
          (fun _ c₂ => c₂.timers.handshake = none ∧ c₂.state = c.state) fun _ _ => True := by
        rw [onTimers, ends_zoom]
        refine Ends.mono (hkept .keepalive rfl) (fun _ t ht => ⟨?_, hsame⟩) fun _ _ _ => trivial
        exact (ht .handshake fun h => by cases h).trans hhandshake
      refine (Ends.and hset hother).mono (fun _ c₂ h₂ => ?_) fun _ _ _ => trivial
      exact hshake c₂ (h₁.trans h₂.1) h₂.2.1 h₂.2.2

/-- A new connection got there from one without timers. -/
theorem fresh_ticks {role : ConnectionRole} {config : ConnectionConfig}
    (h : Fresh suite role config c) : ∃ c₀ : Connection,
      c₀.timers.Sound ∧ c₀.clock.Based ∧ (∀ k, c₀.timers.slot k = none) ∧
        (∀ id, c₀.timers.live id = none) ∧ c₀.state.rank < ConnectionState.closing.rank ∧
        Ticks (fun _ => True) False False c₀ c := by
  obtain ⟨_, id, handshake, timers, _, htimers, hrun⟩ := fresh_starts h
  obtain ⟨hsound, hslots, hlive⟩ := new_live htimers
  have hslot : ∀ k, timers.slot k = none := by
    simp only [TimerState.slots, List.replicate, List.cons.injEq, and_true] at hslots
    obtain ⟨hhandshake, hack, hkeepalive, hidle, hclose⟩ := hslots
    intro k
    cases k with
    | handshake => exact hhandshake
    | ack => exact hack
    | keepalive => exact hkeepalive
    | idle => exact hidle
    | close => exact hclose
  refine ⟨.unstarted role id config handshake timers, hsound,
    ⟨⟨fun i _ => hlive i, fun k i hk => ?_, fun k i _ hk => ?_⟩, ?_⟩, hslot, hlive, ?_, ?_⟩
  · cases (hslot k).symm.trans hk
  · cases (hslot k).symm.trans hk
  · rintro i ⟨n, p, hp, _⟩
    cases hp.symm.trans Std.TreeMap.getElem?_emptyc
  · have hshake : ConnectionState.handshaking.rank < ConnectionState.closing.rank := by decide
    have hidle : ConnectionState.idle.rank < ConnectionState.closing.rank := by decide
    cases role with
    | client => exact hshake
    | server => exact hidle
  · refine (start_ticks (fun _ => trivial) hslot fun hclient => ?_).ok hrun
    cases role with
    | client => rfl
    | server => cases hclient

end DartUdp.Core
