import DartUdp.Lib.Runs
import DartUdp.Proofs.ConnFlush

/-!
# The timer slots

A slot is to hold the id of the one pending timer of its kind, so that the timer
can be cancelled through it. The idle timer is cancelled before it is set again,
and the ACK timer is set only into an empty slot, but a close and a Retry set
their timer whatever the slot holds, and a batch that stops at an event it cannot
deal with leaves the slots of the later events behind. Which event that is can be
told on the state before the batch, in whatever order the batch comes. As long as
none of these happens the slots are exact.

The module is for `timer_slots_exact`. `Tick.slotted` is the step for a tick, with the
events that are still to be dealt with; `processTimers_slotted` follows the outlook
through a batch, with `dealTimer_slotted` for an event that is dealt with and
`Slotted.abandon` for the one the batch stops at; `perform_slotted` puts the
operations together.
-/

namespace DartUdp.Core

open DartUdp.Lib DartUdp.Udp

variable {suite : Suite} {A : TimerKind → Prop} {O S : Prop} {c c₀ c' : Connection}
  {due rest : List TimerEvent} {event : TimerEvent}

/-! ## One tick -/

/-- The slots are faithful, an idle connection has no handshake timer, and only a
connection that is being closed has a close timer. -/
structure Clock.Slotted (due : List TimerEvent) (v : Clock) : Prop where
  faithful : v.alarms.Faithful TimerKind.event due
  calm : v.state = .idle → v.alarms.slot .handshake = none
  closing : v.alarms.slot .close ≠ none ∨ .closeTimeout ∈ due →
    ConnectionState.closing.rank ≤ v.state.rank

/-- No timer that may be set is still to be dealt with, and none is set over
another. -/
theorem Tick.slotted {v v' : Clock} (h : Tick A False S v v') (hA : ∀ k, A k → k.event ∉ due)
    (hv : v.Based) (hs : v.Slotted due) : v'.Slotted due := by
  have hset : ∀ k : TimerKind, A k → v.alarms.slot k = none →
      (v.alarms.set k k.event).Faithful TimerKind.event due := fun k hk hslot =>
    hs.faithful.set hv.ordered TimerKind.event_injective hslot (hA k hk)
  have hother : ∀ k k' : TimerKind, k' ≠ k → (v.alarms.set k k.event).slot k' = v.alarms.slot k' :=
    fun k k' hk => Alarms.set_slot_of_ne hk _
  cases h with
  | set k hk hslot hfits =>
      refine ⟨hset k hk hslot, fun hidle => ?_, fun hclose => ?_⟩
      · rw [hother k .handshake]
        · exact hs.calm hidle
        · rintro rfl
          cases hfits.symm.trans hidle
      · by_cases hkind : k = .close
        · subst hkind
          exact (congrArg ConnectionState.rank hfits).ge
        · rw [hother k .close fun heq => hkind heq.symm] at hclose
          exact hs.closing hclose
  | overwrite k hO hfits => exact hO.elim
  | stop k hk =>
      refine ⟨hs.faithful.stop hv.ordered k, fun hidle => ?_, fun hclose => ?_⟩
      · exact Alarms.stop_slot_of_none (hs.calm hidle)
      · exact hs.closing (hclose.imp_left fun hne hnone => hne (Alarms.stop_slot_of_none hnone))
  | track n g owned hown =>
      exact ⟨hs.faithful.add hv.ordered (retransmit_ne_event n g), hs.calm, hs.closing⟩
  | drop id hid => exact ⟨hs.faithful.drop (hv.foreign id hid), hs.calm, hs.closing⟩
  | release owned hown => exact ⟨hs.faithful, hs.calm, hs.closing⟩
  | shake hk hstate =>
      refine ⟨hset .handshake hk (hs.calm hstate), fun h => (by cases h), fun hclose => ?_⟩
      have hrank := hs.closing hclose
      rw [hstate] at hrank
      exact absurd hrank (by decide)
  | establish hstate =>
      refine ⟨hs.faithful, fun h => (by cases h), fun hclose => ?_⟩
      have hrank := hs.closing hclose
      rw [hstate] at hrank
      exact absurd hrank (by decide)
  | close hk hstate =>
      have hnone : v.alarms.slot .close = none := by
        by_contra hne
        exact absurd (hs.closing (.inl hne)) (Nat.not_le.2 hstate)
      exact ⟨hset .close hk hnone, fun h => (by cases h), fun _ => Nat.le_refl _⟩
  | strand hS => exact ⟨hs.faithful, fun h => (by cases h), fun _ => Nat.le_refl _⟩
  | finish =>
      exact ⟨hs.faithful.clear, fun h => (by cases h),
        fun _ => ConnectionState.rank_le_closed .closing⟩

/-- No event that is still to be dealt with has a slot that is set. -/
def Clock.Vacant (due : List TimerEvent) (v : Clock) : Prop :=
  ∀ k : TimerKind, k.event ∈ due → v.alarms.slot k = none

/-- No slot is set but those of the timers that may be set. -/
theorem Tick.vacant {v v' : Clock} (h : Tick A O S v v') (hA : ∀ k, A k → k.event ∉ due)
    (hO : O → False) (hs : v.Vacant due) : v'.Vacant due := by
  have hset : ∀ k : TimerKind, A k →
      Clock.Vacant due { v with alarms := v.alarms.set k k.event } := by
    intro k hk k' hmem
    have hne : k' ≠ k := by
      rintro rfl
      exact hA k' hk hmem
    exact (Alarms.set_slot_of_ne hne _).trans (hs k' hmem)
  cases h with
  | set k hk _ _ => exact hset k hk
  | overwrite k h _ => exact (hO h).elim
  | stop k _ => exact fun k' hmem => Alarms.stop_slot_of_none (hs k' hmem)
  | shake hk _ => exact hset .handshake hk
  | close hk _ => exact hset .close hk
  | finish => exact fun _ _ => rfl
  | _ => exact hs

/-- The timers of the connection, of which the events `due` are still to be dealt
with. -/
def Slotted (due : List TimerEvent) (c : Connection) : Prop :=
  c.timers.Sound ∧ c.clock.Based ∧ c.clock.Slotted due

theorem Ticks.slotted (h : Ticks A False S c c') (hA : ∀ k, A k → k.event ∉ due)
    (hc : Slotted due c) : Slotted due c' :=
  h.keeps (fun _ _ htick hbased hslotted => htick.slotted hA hbased hslotted) hc

/-! ## A batch -/

/-- The slot of the event is emptied. -/
theorem Slotted.clear (h : Slotted (event :: rest) c) :
    Slotted rest { c with timers := c.timers.clearSlot event } := by
  obtain ⟨hsound, hbased, hslotted⟩ := h
  obtain ⟨hsound', hbased'⟩ := clearSlot_based hsound hbased event
  refine ⟨hsound', hbased', ?_⟩
  have hless : ∀ k : TimerKind, (c.timers.clearSlot event).slot k ≠ none →
      c.timers.slot k ≠ none := by
    intro k
    cases event <;> cases k <;> first | exact fun h => h | exact fun h => absurd rfl h
  refine ⟨?_, fun hidle => ?_, fun hclose => ?_⟩
  · show (c.timers.clearSlot event).alarms.Faithful TimerKind.event rest
    rcases event.kind_or_retransmit with ⟨k, rfl⟩ | ⟨n, g, rfl⟩
    · rw [clearSlot_forgets]
      exact hslotted.faithful.deal TimerKind.event_injective
    · exact hslotted.faithful.pass (retransmit_ne_event n g)
  · by_contra hne
    exact hless .handshake hne (hslotted.calm hidle)
  · exact hslotted.closing (hclose.imp (hless .close) (List.mem_cons_of_mem _))

/-- An event leaves no slot of a later event set but where it was set before. -/
theorem dealTimer_slotted (h : Slotted (event :: rest) c) :
    Within (fun c c' => Slotted rest c' ∧ (c.clock.Vacant rest → c'.clock.Vacant rest))
      (dealTimer event) c := by
  have hcleared := h.clear
  have honce := h.2.2.faithful.once
  have hvacated : c.clock.Vacant rest →
      ({ c with timers := c.timers.clearSlot event } : Connection).clock.Vacant rest := by
    intro hvacant k hmem
    have hslot : c.timers.slot k = none := hvacant k hmem
    revert hslot
    cases event <;> cases k <;> first | exact id | exact fun _ => rfl
  have hticks : Within (Ticks (fun k => event = k.event ∨ k = .close ∧
      c.state.rank < ConnectionState.closing.rank) False True) (processTimer event)
      { c with timers := c.timers.clearSlot event } := by
    refine processTimer_ticks (fun k hk => ?_) (fun k hk => .inl hk)
      (fun hrank => .inr ⟨rfl, hrank⟩) (fun _ _ => trivial) fun _ _ => trivial
    subst hk
    cases k <;> rfl
  have hA : ∀ k : TimerKind, (event = k.event ∨ k = .close ∧
      c.state.rank < ConnectionState.closing.rank) → k.event ∉ rest := by
    rintro k (rfl | ⟨rfl, hrank⟩) hmem
    · exact List.rel_of_pairwise_cons honce hmem k rfl rfl
    · exact absurd (h.2.2.closing (.inr (List.mem_cons_of_mem _ hmem))) (Nat.not_le.2 hrank)
  rw [dealTimer, Within, ends_bind, ends_modify]
  have hboth : ∀ c', Ticks (fun k => event = k.event ∨ k = .close ∧
      c.state.rank < ConnectionState.closing.rank) False True
      { c with timers := c.timers.clearSlot event } c' →
      Slotted rest c' ∧ (c.clock.Vacant rest → c'.clock.Vacant rest) := fun c' h' =>
    ⟨h'.slotted hA hcleared, fun hvacant => (h'.keeps
      (fun _ _ htick _ hI => htick.vacant hA id hI)
      ⟨hcleared.1, hcleared.2.1, hvacated hvacant⟩).2.2⟩
  exact Ends.mono hticks (fun _ c' h' => hboth c' h') fun _ c' h' => hboth c' h'

/-- The close timer takes all timers along. -/
theorem closeTimeout_vacant : Ends (dealTimer .closeTimeout) c (fun _ c' => c'.clock.Vacant due)
    fun _ _ => False := by
  simp only [dealTimer, processTimer, ends_bind, ends_modify]
  intro k hmem
  show (Connection.setState _ _).timers.slot k = none
  rw [Connection.setState_timers]
  cases k <;> rfl

/-- Once the slots of the rest are empty, the rest may be left. -/
theorem Slotted.abandon (h : Slotted rest c) (hvacant : c.clock.Vacant rest) : Slotted [] c := by
  obtain ⟨hsound, hbased, hslotted⟩ := h
  refine ⟨hsound, hbased, hslotted.faithful.abandon hvacant, hslotted.calm, fun hclose => ?_⟩
  exact hslotted.closing (hclose.imp_right fun hmem => by cases hmem)

/-- The event is of a timer that has a slot. -/
def TimerEvent.hasSlot : TimerEvent → Bool
  | .retransmit _ _ => false
  | _ => true

/-- The batch, foreseen from the connection it finds, leaves no slot set: an event that
cannot be dealt with comes after the end of the close timer, which empties the slots,
or before retransmissions only. -/
def DealsOut (c : Connection) (batch : Nat) (o : Outlook) (ended : Bool) : List TimerEvent → Prop
  | [] => True
  | event :: rest =>
      (o.fails c batch event = true → ended = true ∨ ∀ later ∈ rest, later.hasSlot = false) ∧
        (o.refuses c event = false →
          DealsOut c batch (o.next c event) (ended || event = .closeTimeout) rest)

instance DealsOut.decidable (c : Connection) (batch : Nat) : (o : Outlook) → (ended : Bool) →
    (events : List TimerEvent) → Decidable (DealsOut c batch o ended events)
  | _, _, [] => .isTrue trivial
  | o, ended, event :: rest =>
      have := DealsOut.decidable c batch (o.next c event) (ended || event = .closeTimeout) rest
      inferInstanceAs (Decidable (_ ∧ _))

/-- A batch that deals out leaves no slot behind. -/
theorem processTimers_slotted {batch n : Nat} {o : Outlook} {ended : Bool} (h : Slotted due c)
    (hforeseen : Foreseen c₀ batch o n c) (hn : n + due.length ≤ batch)
    (hnumbers : ∀ m g, .retransmit m g ∈ due → m < c₀.transport.nextPacketNumber)
    (hended : ended = true → c.clock.Vacant due) (hdeals : DealsOut c₀ batch o ended due) :
    Within (fun _ c' => Slotted [] c') (processTimers due) c := by
  induction due generalizing c o n ended with
  | nil => exact h
  | cons event rest ih =>
      obtain ⟨hfails, hrest⟩ := hdeals
      rw [List.length_cons] at hn
      have hlater : ended = true → c.clock.Vacant rest := fun hend k hmem =>
        hended hend k (List.mem_cons_of_mem _ hmem)
      rw [processTimers_eq, Within, ends_bind]
      refine (Ends.and (dealTimer_slotted h) ((dealTimer_foreseen hforeseen (by omega)
        fun m g heq => hnumbers m g (heq ▸ List.mem_cons_self)).and (Ends.run _ _))).mono
          (fun _ c₁ h₁ => ?_) fun e c₁ h₁ => ?_
      · obtain ⟨⟨hslotted, hvacant⟩, ⟨hallowed, hforeseen'⟩, hrun⟩ := h₁
        refine ih hslotted hforeseen' (by omega) (fun m g hmem =>
          hnumbers m g (List.mem_cons_of_mem _ hmem)) (fun hend => ?_) (hrest hallowed)
        rcases Bool.or_eq_true_iff.1 hend with hend | hclose
        · exact hvacant (hlater hend)
        · obtain rfl := of_decide_eq_true hclose
          exact closeTimeout_vacant.ok hrun
      · obtain ⟨⟨hslotted, hvacant⟩, hfailed, _⟩ := h₁
        rcases hfails hfailed with hend | hslots
        · exact hslotted.abandon (hvacant (hlater hend))
        · refine hslotted.abandon fun k hmem => ?_
          have hslot := hslots k.event hmem
          cases k <;> cases hslot

/-- The events an advance hands out are due, each once. -/
theorem Slotted.advance (h : Slotted [] c) (elapsed : Nat) :
    Ends (advance elapsed) c.timers
      (fun events t => Slotted events { c with now := c.now + elapsed, timers := t })
      fun _ t => Slotted [] { c with now := c.now + elapsed, timers := t } := by
  obtain ⟨hsound, hbased, hslotted⟩ := h
  refine (advance_based hsound hbased elapsed).mono (fun events t ht => ?_) fun _ t ht => ⟨ht.1, ?_⟩
  · obtain ⟨ids, hnodup, hdue, hsound', hclock, hbased'⟩ := ht
    refine ⟨hsound', hbased', ?_⟩
    rw [hclock]
    refine ⟨hslotted.faithful.expire hnodup hdue, hslotted.calm, ?_⟩
    rintro (hclose | hmem)
    · exact hslotted.closing (.inl hclose)
    · have hlive : some TimerEvent.closeTimeout ∈ ids.map c.timers.alarms.live := by
        rw [← hdue]
        exact List.mem_map_of_mem hmem
      obtain ⟨id, _, hid⟩ := List.mem_map.1 hlive
      have hslot := hslotted.faithful.held .close id hid
      exact hslotted.closing (.inl (hslot ▸ Option.some_ne_none id))
  · rw [ht.2]
    exact ⟨hbased, hslotted⟩

/-! ## Runs -/

/-- No Retry of the packet sets the handshake timer again. -/
def TidyPacket (suite : Suite) (c : Connection) (p : Packet) : Prop :=
  Ends (receivePacket p >>= fun _ => applyAcks p.frames) c
    (fun _ c' => Along (processFrame suite p.packetType)
      (fun c f _ => c.rearms p.packetType f = false) p.frames c')
    fun _ _ => True

/-- No batch is given up while a slot of its rest is set. -/
def TidyBatch (c : Connection) (elapsed : Nat) : Prop :=
  Ends (advance elapsed) c.timers
    (fun events t => DealsOut { c with now := c.now + elapsed, timers := t } events.length c.outlook
      false events)
    fun _ _ => True

/-- What the operation finds lets it keep the slots exact. -/
def Tidy (suite : Suite) (c : Connection) : Op → Prop
  | .onDatagram p => TidyPacket suite c p
  | .onDatagramBytes bytes =>
      Ends (decodeDatagram suite bytes) c (fun p c' => TidyPacket suite c' p) fun _ _ => True
  | .advanceTime elapsed => c.now + elapsed ≤ durationMax → TidyBatch c elapsed
  | .close _ _ => c.state = .closing → c.timers.close.isSome = true → c.canClose = false
  | _ => True

instance (suite : Suite) (c : Connection) (p : Packet) : Decidable (TidyPacket suite c p) :=
  inferInstanceAs (Decidable (Ends _ _ _ _))

instance (c : Connection) (elapsed : Nat) : Decidable (TidyBatch c elapsed) :=
  inferInstanceAs (Decidable (Ends _ _ _ _))

instance (suite : Suite) (c : Connection) : (op : Op) → Decidable (Tidy suite c op)
  | .onDatagram p => inferInstanceAs (Decidable (TidyPacket suite c p))
  | .onDatagramBytes _ => inferInstanceAs (Decidable (Ends _ _ _ _))
  | .advanceTime elapsed => inferInstanceAs (Decidable (_ → TidyBatch c elapsed))
  | .close _ _ => inferInstanceAs (Decidable (_ → _ → _))
  | .openStream | .writeStream .. | .readStream .. | .drainOutput => .isTrue trivial

/-- Each slot holds the id of the one pending timer of its kind, and is empty where
there is none. -/
def TimerState.Exact (t : TimerState) : Prop :=
  ∀ (k : TimerKind) (id : Nat), t.live id = some k.event ↔ t.slot k = some id

theorem onDatagram_slotted {p : Packet} (h : Slotted [] c) (htidy : TidyPacket suite c p) :
    Within (fun _ c' => Slotted [] c') (onDatagram suite p) c := by
  have hticks : Within (Ticks (fun _ => True) False True) (onDatagram suite p) c := by
    refine onDatagram_ticks (fun _ => trivial) p (fun isNew c' hrun => ?_)
      fun isNew c₁ c₂ h₁ h₂ => ?_
    · exact Along.of_forall (fun _ _ _ _ _ => trivial) _ _
    · refine Along.mono ((Ends.ok (ends_bind.1 htidy) h₁).ok h₂) fun c f rest hfalse htrue => ?_
      rw [hfalse] at htrue
      cases htrue
  exact hticks.mono fun _ h' => h'.slotted (fun _ _ hmem => by cases hmem) h

theorem advanceTime_slotted {elapsed : Nat} (h : Slotted [] c) (hkept : c.Kept)
    (htidy : c.now + elapsed ≤ durationMax → TidyBatch c elapsed) :
    Within (fun _ c' => Slotted [] c') (advanceTime elapsed) c := by
  simp only [advanceTime, Within, ends_steps, onTimers, ends_zoom]
  refine ⟨fun _ => h, fun hlate => ?_⟩
  have hbatch := htidy (Nat.not_lt.1 hlate)
  refine ((h.advance elapsed).and ((hkept.advance elapsed).and (Ends.run _ _))).mono
    (fun events t ht => ?_) fun _ _ ht => ht.1
  obtain ⟨hslotted, ⟨hkept', hawaited⟩, hrun⟩ := ht
  have hdeals := hbatch.ok hrun
  refine Ends.mono (processTimers_slotted hslotted (hkept'.foreseen events.length)
    (Nat.zero_add _).le (fun m g hmem => hawaited _ hmem) (fun hfalse => by cases hfalse) hdeals)
    (fun _ c₁ h₁ => ?_) fun _ _ h₁ => h₁
  have hflushed : Within (Ticks (fun _ => False) False True) flush c₁ := flush_ticks
  exact Ends.mono hflushed (fun _ _ h' => h'.slotted (fun _ hk => hk.elim) h₁)
    fun _ _ h' => h'.slotted (fun _ hk => hk.elim) h₁

theorem perform_slotted (op : Op) (h : Slotted [] c) (hkept : c.Kept) (htidy : Tidy suite c op) :
    Slotted [] (after (perform suite op) c) := by
  have hticked : ∀ {c' : Connection}, Ticks (fun _ => True) False True c c' → Slotted [] c' :=
    fun h' => h'.slotted (fun _ _ hmem => by cases hmem) h
  cases op with
  | onDatagram p =>
      exact Ends.after (ends_bind.2 (onDatagram_slotted h htidy))
  | onDatagramBytes bytes =>
      refine Ends.after (P := Slotted []) (ends_bind.2 (ends_bind.2 ?_))
      have hstill : Within Still (decodeDatagram suite bytes) c := decodeDatagram_still bytes
      have hpacket : Ends (decodeDatagram suite bytes) c (fun p c' => TidyPacket suite c' p)
          fun _ _ => True := htidy
      refine (Ends.and hstill (Ends.run _ _)).mono (fun p c₁ h₁ => ?_)
        fun _ _ h₁ => hticked h₁.1.ticks
      exact onDatagram_slotted (hticked h₁.1.ticks) (hpacket.ok h₁.2)
  | advanceTime elapsed => exact Ends.after (ends_bind.2 (advanceTime_slotted h hkept htidy))
  | openStream => exact hticked (Within.after (ends_map.2 openStream_ticks))
  | writeStream id data fin =>
      exact hticked (Within.after (ends_map.2 (writeStream_ticks id data fin)))
  | readStream id maxLen => exact hticked (Within.after (ends_map.2 (readStream_ticks id maxLen)))
  | close errorCode reason =>
      refine hticked (Within.after ((close_ticks errorCode reason (fun _ => trivial) ?_
        fun _ _ => trivial).bind fun _ _ => .pure _))
      intro hstate hset htaken
      have hrefused : c.canClose = false := htidy hstate hset
      cases hrefused.symm.trans htaken
  | drainOutput => exact hticked (Within.after (ends_map.2 drainOutput_ticks))

theorem fresh_slotted {role : ConnectionRole} {config : ConnectionConfig}
    (h : Fresh suite role config c) : Slotted [] c := by
  obtain ⟨c₀, hsound, hbased, hslots, hlive, _, hticks⟩ := fresh_ticks h
  refine hticks.slotted (fun _ _ hmem => by cases hmem)
    ⟨hsound, hbased, ?_, fun _ => hslots .handshake, ?_⟩
  · refine ⟨fun k id hk => ?_, fun k id hk => ?_, fun _ _ hmem => (by cases hmem), .nil⟩
    · cases (hlive id).symm.trans hk
    · cases (hslots k).symm.trans hk
  · rintro (hclose | hmem)
    · exact absurd (hslots .close) hclose
    · cases hmem

/-- **The timer slots.** Over every run in which no close and no Retry sets a timer
that is set, and no batch is given up while a slot of its rest is set, each slot
holds the id of the one pending timer of its kind, and cancelling the slot leaves
no timer of the kind. -/
theorem timer_slots_exact (suite : Suite) (role : ConnectionRole) (config : ConnectionConfig)
    (c : Connection) (ops : List Op) (hfresh : Fresh suite role config c)
    (htidy : Meets (fun c op => after (perform suite op) c) (Tidy suite) c ops) :
    (final suite c ops).timers.Exact ∧
      ∀ (k : TimerKind) (id : Nat), ((final suite c ops).timers.stop k).live id ≠ some k.event := by
  have hend : Slotted [] (final suite c ops) ∧ (final suite c ops).Kept :=
    htidy.run (I := fun c => Slotted [] c ∧ c.Kept) ⟨fresh_slotted hfresh, fresh_kept hfresh⟩
      fun _ op h ht => ⟨perform_slotted op h.1 h.2 ht, perform_kept op h.2⟩
  obtain ⟨⟨hsound, _, hslotted⟩, _⟩ := hend
  refine ⟨fun k id => hslotted.faithful.exact k id, fun k id hlive => ?_⟩
  have hstopped := (stop_stops hsound k).2
  refine hslotted.faithful.stopped k id ?_
  rw [show (final suite c ops).clock.alarms.stop k = _ from hstopped.symm]
  exact hlive

theorem timer_slots_exact_closing : ∃ c, Fresh sampleSuite .client {} c ∧
    (final sampleSuite c closingRun).timers.Exact := by
  obtain ⟨c, hc, hrun⟩ := of_checks (r := sampleConnection .client {})
    (p := fun c => decide (Meets (fun c op => after (perform sampleSuite op) c) (Tidy sampleSuite) c
      closingRun)) (by decide +kernel)
  have hfresh := sampleConnection_fresh hc
  exact ⟨c, hfresh, (timer_slots_exact sampleSuite .client {} c closingRun hfresh
    (of_decide_eq_true hrun)).1⟩

/-- **A close timer that is lost.** A client is told to close twice: two close
timers are pending, and the slot knows of the second only. -/
theorem close_twice_leaks : ∃ c, Fresh sampleSuite .client {} c ∧
    ¬ (final sampleSuite c [.close 0 [], .close 0 []]).timers.Exact := by
  obtain ⟨c, hc, hrun⟩ := of_checks (r := sampleConnection .client {})
    (p := fun c => decide (
      (final sampleSuite c [.close 0 [], .close 0 []]).timers.live 3 = some .closeTimeout ∧
      (final sampleSuite c [.close 0 [], .close 0 []]).timers.live 5 = some .closeTimeout ∧
      (final sampleSuite c [.close 0 [], .close 0 []]).timers.close = some 5)) (by decide +kernel)
  obtain ⟨hfirst, _, hslot⟩ := of_decide_eq_true hrun
  refine ⟨c, sampleConnection_fresh hc, fun hexact => ?_⟩
  have hheld := (hexact .close 3).1 hfirst
  cases hheld.symm.trans hslot

end DartUdp.Core
