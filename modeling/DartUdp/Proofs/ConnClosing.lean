import DartUdp.Lib.Runs
import DartUdp.Proofs.ConnBatch

/-!
# Closing ends

A connection that is Closing waits for its close timer and for nothing else. A
close sets the timer, if the wheel takes it. The connection that gives up on a
packet turns to Closing without one, and a batch that stops before it comes to its
close timer takes the timer along. Which event a batch stops at can be told on the
state before it, in whatever order the batch comes. Where none of these happens a
connection that is Closing has a close timer, and is Closed once it goes off.

The module is for `closing_ends`. `Tick.ending` is the step for a tick;
`processTimers_ending` follows the outlook through a batch, up to the close timer or
the event that closes the connection (`EndsWell`); and `perform_ending` puts the
operations together.
-/

namespace DartUdp.Core

open DartUdp.Lib DartUdp.Udp DartUdp.TimeWheel

variable {suite : Suite} {A : TimerKind → Prop} {O S : Prop} {c c' : Connection}
  {due rest : List TimerEvent} {event : TimerEvent}

/-! ## One tick -/

/-- A connection that is Closing has a close timer, which may just have gone off. -/
def Clock.Ending (due : List TimerEvent) (v : Clock) : Prop :=
  v.state = .closing → (∃ id, v.alarms.live id = some .closeTimeout) ∨ .closeTimeout ∈ due

theorem Tick.ending {v v' : Clock} (h : Tick A O False v v') (hv : v.Based) (hs : v.Ending due) :
    v'.Ending due := by
  have hadded : ∀ e : TimerEvent, (∃ id, v.alarms.live id = some .closeTimeout) →
      ∃ id, (v.alarms.add e).live id = some .closeTimeout := by
    rintro e ⟨id, hid⟩
    exact ⟨id, hv.ordered.live_add e hid⟩
  cases h with
  | set k hA hslot hfits => exact fun hst => (hs hst).imp_left (hadded k.event)
  | overwrite k hO hfits => exact fun hst => (hs hst).imp_left (hadded k.event)
  | stop k hk =>
      intro hst
      refine (hs hst).imp_left ?_
      rintro ⟨id, hid⟩
      have hne : TimerKind.close ≠ k := hk.symm
      exact ⟨id, hv.ordered.live_stop hne hid⟩
  | track n g owned hown => exact fun hst => (hs hst).imp_left (hadded (.retransmit n g))
  | drop id hid =>
      intro hst
      refine (hs hst).imp_left ?_
      rintro ⟨i, hi⟩
      have hne : i ≠ id := by
        rintro rfl
        exact (hv.foreign i hid).other .close hi
      exact ⟨i, (Alarms.drop_live_of_ne hne).trans hi⟩
  | release owned hown => exact hs
  | shake hA hstate => exact fun hst => by cases hst
  | establish hstate => exact fun hst => by cases hst
  | close hA hstate => exact fun _ => .inl ⟨v.alarms.next, v.alarms.add_live_self _⟩
  | strand hS => exact hS.elim
  | finish => exact fun hst => by cases hst

/-- The state only moves up. -/
theorem Tick.rank_le {v v' : Clock} (h : Tick A O False v v') : v.state.rank ≤ v'.state.rank := by
  cases h with
  | shake hA hstate =>
      rw [hstate]
      exact Nat.zero_le _
  | establish hstate =>
      rw [hstate]
      exact Nat.le_succ _
  | close hA hstate => exact Nat.le_of_lt hstate
  | strand hS => exact hS.elim
  | finish => exact ConnectionState.rank_le_closed _
  | _ => exact Nat.le_refl _

theorem ConnectionState.closed_of_rank_le {s s' : ConnectionState} (h : s = .closed)
    (hle : s.rank ≤ s'.rank) : s' = .closed := by
  rw [h] at hle
  revert hle
  cases s' <;> decide

/-- The connection, of whose timers the events `due` are still to be dealt with. -/
def Ending (due : List TimerEvent) (c : Connection) : Prop :=
  c.timers.Sound ∧ c.clock.Based ∧ c.clock.Ending due

theorem Ticks.ending (h : Ticks A O False c c') (hc : Ending due c) :
    Ending due c' ∧ c.state.rank ≤ c'.state.rank := by
  have hboth := h.keeps (I := fun v => v.Ending due ∧ c.state.rank ≤ v.state.rank)
    (fun _ _ htick hbased hI => ⟨htick.ending hbased hI.1, Nat.le_trans hI.2 htick.rank_le⟩)
    ⟨hc.1, hc.2.1, hc.2.2, Nat.le_refl _⟩
  exact ⟨⟨hboth.1, hboth.2.1, hboth.2.2.1⟩, hboth.2.2.2⟩

/-! ## A batch -/

/-- The close timer that has gone off closes the connection. -/
theorem closeTimeout_closes : Ends (processTimer .closeTimeout) c (fun _ c' => c'.state = .closed)
    fun _ _ => False := Connection.setState_state _ .closed

/-- An event leaves a connection that is Closing its close timer, if it gives up on a
packet only then, and if the wheel takes the close timer it calls for. -/
theorem dealTimer_ending (h : Ending (event :: rest) c)
    (hgives : c.givesUp event = true → c.state = .closing)
    (hcloses : c.closesAt event = true → c.canClose = true) :
    Ends (dealTimer event) c
      (fun _ c' => Ending rest c' ∧ c.state.rank ≤ c'.state.rank ∧
        (event = .closeTimeout → c'.state = .closed))
      fun _ c' => Ending rest c' ∧ c.state.rank ≤ c'.state.rank ∧ event ≠ .closeTimeout := by
  obtain ⟨hsound, hbased, hending⟩ := h
  obtain ⟨hsound', hbased'⟩ := clearSlot_based hsound hbased event
  have hwheel : (c.timers.clearSlot event).wheel = c.timers.wheel := by cases event <;> rfl
  have hticks : Within (Ticks (fun _ => True) True False) (processTimer event)
      { c with timers := c.timers.clearSlot event } := by
    refine processTimer_ticks (fun k hk => ?_) (fun _ _ => trivial) (fun _ => trivial)
      (fun htrue hne => absurd (hgives htrue) hne) fun htrue hrefused => ?_
    · subst hk
      cases k <;> rfl
    · have hcan : c.timers.takes c.config.closeTimeout = true := hcloses htrue
      unfold Connection.canClose TimerState.takes at hrefused
      unfold TimerState.takes at hcan
      rw [hwheel, hcan] at hrefused
      cases hrefused
  rw [dealTimer, ends_bind, ends_modify]
  by_cases hclose : event = .closeTimeout
  · subst hclose
    refine (Ends.and hticks closeTimeout_closes).mono (fun _ c₁ h₁ => ?_) fun _ _ h₁ => h₁.2.elim
    obtain ⟨hticked, hclosed⟩ := h₁
    have hkept := hticked.keeps (I := fun _ => True) (fun _ _ _ _ _ => trivial)
      ⟨hsound', hbased', trivial⟩
    refine ⟨⟨hkept.1, hkept.2.1, fun hst => ?_⟩, ?_, fun _ => hclosed⟩
    · cases hclosed.symm.trans hst
    · rw [hclosed]
      exact ConnectionState.rank_le_closed _
  · have hcleared : Ending rest { c with timers := c.timers.clearSlot event } := by
      refine ⟨hsound', hbased', fun hst => ?_⟩
      have hlive : (c.timers.clearSlot event).live = c.timers.live := by
        unfold TimerState.live
        rw [hwheel]
      rcases hending hst with ⟨i, hi⟩ | hmem
      · exact .inl ⟨i, (congrFun hlive i).trans hi⟩
      · exact .inr ((List.mem_cons.1 hmem).resolve_left fun heq => hclose heq.symm)
    refine Ends.mono hticks (fun _ c₁ h₁ => ?_) fun _ c₁ h₁ => ?_
    · obtain ⟨hend, hrank⟩ := h₁.ending hcleared
      exact ⟨hend, hrank, fun heq => absurd heq hclose⟩
    · obtain ⟨hend, hrank⟩ := h₁.ending hcleared
      exact ⟨hend, hrank, hclose⟩

/-- The batch, foreseen from the connection it finds, turns no connection to Closing
without a close timer: a packet is given up only when the connection is Closing, and
the wheel takes the close timer that is called for. Nor does it drop one: the event
that cannot be dealt with, for a packet that is given up or a timer that the wheel
does not take, has no end of the close timer behind it. -/
def EndsWell (c : Connection) (o : Outlook) : List TimerEvent → Prop
  | [] => True
  | event :: rest =>
      (c.givesUp event = true → o.state = .closing) ∧
        (o.closes c event = true → c.canClose = true) ∧
        (o.refuses c event = true → .closeTimeout ∉ rest) ∧
        (o.refuses c event = false → EndsWell c (o.next c event) rest)

instance EndsWell.decidable (c : Connection) :
    (o : Outlook) → (events : List TimerEvent) → Decidable (EndsWell c o events)
  | _, [] => .isTrue trivial
  | o, event :: rest =>
      have := EndsWell.decidable c (o.next c event) rest
      inferInstanceAs (Decidable (_ ∧ _ ∧ _ ∧ _))

/-- A batch that ends well leaves a connection that is Closing its close timer, and
closes the connection if the close timer is in it. -/
theorem processTimers_ending {c₀ : Connection} {o : Outlook} (h : Ending due c)
    (hfollows : Follows c₀ o c) (hwell : EndsWell c₀ o due)
    (hnumbers : ∀ n g, .retransmit n g ∈ due → n < c₀.transport.nextPacketNumber)
    (hdue : .closeTimeout ∈ due → ConnectionState.closing.rank ≤ c.state.rank) :
    Within (fun _ c' => Ending [] c' ∧ c.state.rank ≤ c'.state.rank ∧
      (.closeTimeout ∈ due → c'.state = .closed)) (processTimers due) c := by
  induction due generalizing c o with
  | nil => exact ⟨h, Nat.le_refl _, fun hmem => by cases hmem⟩
  | cons event rest ih =>
      obtain ⟨hgives, hcloses, hrefuses, hrest⟩ := hwell
      have hnumber : ∀ n g, event = .retransmit n g → n < c₀.transport.nextPacketNumber :=
        fun n g heq => hnumbers n g (heq ▸ List.mem_cons_self)
      rw [processTimers_eq, Within, ends_bind]
      refine ((dealTimer_ending h (fun htrue => ?_) fun htrue => ?_).and
        (dealTimer_follows hfollows hnumber)).mono (fun _ c₁ h₁ => ?_) fun e c₁ h₁ => ?_
      · rw [hfollows.spares event hnumber] at htrue
        exact (congrArg Outlook.state hfollows.outlook).trans (hgives htrue)
      · rw [hfollows.closesAt] at htrue
        exact hfollows.canClose.trans (hcloses htrue)
      · obtain ⟨⟨hend, hrank, hclosed⟩, hallowed, hfollows'⟩ := h₁
        refine Ends.mono (ih hend hfollows' (hrest hallowed)
          (fun n g hmem => hnumbers n g (List.mem_cons_of_mem _ hmem))
          fun hmem => (hdue (List.mem_cons_of_mem _ hmem)).trans hrank) (fun _ c₂ h₂ => ?_)
          fun _ c₂ h₂ => ?_
        all_goals
          refine ⟨h₂.1, Nat.le_trans hrank h₂.2.1, fun hmem => ?_⟩
          rcases List.mem_cons.1 hmem with heq | hmem
          · exact ConnectionState.closed_of_rank_le (hclosed heq.symm) h₂.2.1
          · exact h₂.2.2 hmem
      · -- The rest of the batch is not dealt with, and no end of the close timer is in it.
        obtain ⟨⟨hend, hrank, hevent⟩, hwhy⟩ := h₁
        have hout : .closeTimeout ∉ rest := by
          intro hmem
          rcases hwhy with hrefused | hclosing
          · exact hrefuses hrefused hmem
          · have hclosing := (hfollows.closes event).trans hclosing
            exact absurd (hdue (List.mem_cons_of_mem _ hmem))
              (Nat.not_le.2 (closes_rank hclosing))
        refine ⟨⟨hend.1, hend.2.1, fun hst => .inl ?_⟩, hrank, fun hmem => ?_⟩
        · exact (hend.2.2 hst).resolve_right hout
        · rcases List.mem_cons.1 hmem with heq | hmem
          · exact absurd heq.symm hevent
          · exact absurd hmem hout

/-! ## Time -/

/-- Late enough, the event goes off. -/
theorem advance_reaches {t : TimerState} (h : t.Sound) {id : Nat} (hlive : t.live id = some event) :
    ∃ bound, ∀ elapsed ≥ bound, Ends (advance elapsed) t (fun events _ => event ∈ events)
      fun _ _ => True := by
  obtain ⟨base, m, hm⟩ := h
  rw [live_eq_timers hm, Option.map_eq_some_iff] at hlive
  obtain ⟨timer, htimer, hitem⟩ := hlive
  refine ⟨timer.due base * base, fun elapsed hlate => ?_⟩
  obtain ⟨m', hallows, _⟩ := step_advanceBy hm elapsed
  simp only [Wheel.step] at hallows
  simp only [advance, ends_bind, ends_pure]
  unfold Ends onWheel
  cases hrun : advanceBy elapsed [] t.wheel with
  | error e w => trivial
  | ok r w =>
      obtain ⟨report, expired⟩ := r
      rw [hrun] at hallows
      obtain ⟨_, _, _, _, hmem, _⟩ := hallows
      have hdue : timer.due base ≤ (m.elapsed + elapsed) / base := by
        rw [Nat.le_div_iff_mul_le hm.base_pos]
        omega
      refine List.mem_map.2 ⟨⟨id, timer.item, timer.due base⟩, (hmem _).2 ?_, hitem⟩
      exact ⟨timer, htimer, hdue, rfl, rfl⟩

/-- No batch turns the connection to Closing without a close timer, or drops one. -/
def TimelyBatch (c : Connection) (elapsed : Nat) : Prop :=
  Ends (advance elapsed) c.timers
    (fun events t => EndsWell { c with now := c.now + elapsed, timers := t } c.outlook events)
    fun _ _ => True

instance (c : Connection) (elapsed : Nat) : Decidable (TimelyBatch c elapsed) :=
  inferInstanceAs (Decidable (Ends _ _ _ _))

theorem Ending.advance (h : Ending [] c) (elapsed : Nat) :
    Ends (advance elapsed) c.timers
      (fun events t => Ending events { c with now := c.now + elapsed, timers := t })
      fun _ t => Ending [] { c with now := c.now + elapsed, timers := t } := by
  obtain ⟨hsound, hbased, hending⟩ := h
  refine (advance_based hsound hbased elapsed).mono (fun events t ht => ?_) fun _ t ht => ⟨ht.1, ?_⟩
  · obtain ⟨ids, _, hdue, hsound', hclock, hbased'⟩ := ht
    refine ⟨hsound', hbased', ?_⟩
    rw [hclock]
    intro hst
    obtain ⟨id, hid⟩ := (hending hst).resolve_right List.not_mem_nil
    by_cases hin : id ∈ ids
    · right
      have hmem : some TimerEvent.closeTimeout ∈ events.map some := by
        rw [hdue, ← hid]
        exact List.mem_map_of_mem hin
      obtain ⟨e, he, heq⟩ := List.mem_map.1 hmem
      cases heq
      exact he
    · exact .inl ⟨id, (if_neg hin).trans hid⟩
  · rw [ht.2]
    exact ⟨hbased, hending⟩

/-- A timely advance leaves a connection that is Closing its close timer, or closes
it where the timer goes off. -/
theorem advanceTime_ending {elapsed : Nat} (h : Ending [] c) (hkept : c.Kept)
    (htimely : c.now + elapsed ≤ durationMax → TimelyBatch c elapsed) :
    Within (fun c c' => Ending [] c' ∧ (c.now + elapsed ≤ durationMax →
      .closeTimeout ∈ c.due elapsed → c'.state = .closed)) (advanceTime elapsed) c := by
  simp only [advanceTime, Within, ends_steps, onTimers, ends_zoom]
  refine ⟨fun hlate => ⟨h, fun hle => absurd hle (Nat.not_le.2 hlate)⟩, fun hlate => ?_⟩
  have hbatch := htimely (Nat.not_lt.1 hlate)
  refine ((h.advance elapsed).and ((hkept.advance elapsed).and (Ends.run _ _))).mono
    (fun events t ht => ?_) fun e t ht => ⟨ht.1, fun _ hmem => ?_⟩
  · obtain ⟨hstart, ⟨hfound, hawaits⟩, hrun⟩ := ht
    have hdue : c.due elapsed = events := by
      unfold Connection.due answer
      rw [hrun]
      rfl
    rw [hdue]
    refine Ends.mono (processTimers_ending hstart hfound.follows (hbatch.ok hrun)
      (fun n g hmem => hawaits _ hmem) fun hmem => hawaits _ hmem) (fun _ c₁ h₁ => ?_)
      fun _ _ h₁ => ⟨h₁.1, fun _ => h₁.2.2⟩
    have hflushed : Within (Ticks (fun _ => True) True False) flush c₁ := flush_ticks
    have hkept : ∀ c₂ : Connection, Ticks (fun _ => True) True False c₁ c₂ →
        Ending [] c₂ ∧
          (c.now + elapsed ≤ durationMax → .closeTimeout ∈ events → c₂.state = .closed) := by
      intro c₂ h₂
      obtain ⟨hend, hrank⟩ := h₂.ending h₁.1
      exact ⟨hend, fun _ hmem => ConnectionState.closed_of_rank_le (h₁.2.2 hmem) hrank⟩
    exact Ends.mono hflushed (fun _ c₂ => hkept c₂) fun _ c₂ => hkept c₂
  · have hdue : c.due elapsed = [] := by
      unfold Connection.due answer
      rw [ht.2.2]
      rfl
    rw [hdue] at hmem
    cases hmem

/-! ## Runs -/

/-- No ACK of the packet gives a packet up, unless the connection is Closing. -/
def TimelyPacket (c : Connection) (p : Packet) : Prop :=
  Ends (receivePacket p) c
    (fun _ c' => Along applyAckFrame (fun c f _ => c.givesUpAt f = true → c.state = .closing)
      p.frames c')
    fun _ _ => True

instance (c : Connection) (p : Packet) : Decidable (TimelyPacket c p) :=
  inferInstanceAs (Decidable (Ends _ _ _ _))

/-- The operation does not turn the connection to Closing without a close timer,
and does not drop a close timer that goes off. -/
def Timely (suite : Suite) (c : Connection) : Op → Prop
  | .onDatagram p => TimelyPacket c p
  | .onDatagramBytes bytes =>
      Ends (decodeDatagram suite bytes) c (fun p c' => TimelyPacket c' p) fun _ _ => True
  | .advanceTime elapsed => c.now + elapsed ≤ durationMax → TimelyBatch c elapsed
  | .close _ _ => c.state.rank < ConnectionState.closing.rank → c.canClose = true
  | _ => True

instance (suite : Suite) (c : Connection) : (op : Op) → Decidable (Timely suite c op)
  | .onDatagram p => inferInstanceAs (Decidable (TimelyPacket c p))
  | .onDatagramBytes _ => inferInstanceAs (Decidable (Ends _ _ _ _))
  | .advanceTime elapsed => inferInstanceAs (Decidable (_ → TimelyBatch c elapsed))
  | .close _ _ => inferInstanceAs (Decidable (_ → _))
  | .openStream | .writeStream .. | .readStream .. | .drainOutput => .isTrue trivial

theorem onDatagram_ending {p : Packet} (h : Ending [] c) (htimely : TimelyPacket c p) :
    Within (fun _ c' => Ending [] c') (onDatagram suite p) c := by
  have hticks : Within (Ticks (fun _ => True) True False) (onDatagram suite p) c := by
    have hacks : Ends (receivePacket p) c (fun _ c' => Along applyAckFrame
        (fun c f _ => c.givesUpAt f = true → c.state = .closing) p.frames c')
          fun _ _ => True := htimely
    refine onDatagram_ticks (fun _ => trivial) p (fun isNew c' hrun => ?_) fun _ _ _ _ _ => ?_
    · exact (hacks.ok hrun).mono fun c f rest hstate hgives hne => hne (hstate hgives)
    · exact Along.of_forall (fun _ _ _ _ => trivial) _ _
  exact hticks.mono fun _ h' => (h'.ending h).1

theorem perform_ending (op : Op) (h : Ending [] c) (hkept : c.Kept) (htimely : Timely suite c op) :
    Ending [] (after (perform suite op) c) := by
  have hticked : ∀ {c' : Connection}, Ticks (fun _ => True) True False c c' → Ending [] c' :=
    fun h' => (h'.ending h).1
  cases op with
  | onDatagram p => exact Ends.after (ends_bind.2 (onDatagram_ending h htimely))
  | onDatagramBytes bytes =>
      refine Ends.after (P := Ending []) (ends_bind.2 (ends_bind.2 ?_))
      have hstill : Within Still (decodeDatagram suite bytes) c := decodeDatagram_still bytes
      have hpacket : Ends (decodeDatagram suite bytes) c (fun p c' => TimelyPacket c' p)
          fun _ _ => True := htimely
      refine (Ends.and hstill (Ends.run _ _)).mono (fun p c₁ h₁ => ?_)
        fun _ _ h₁ => hticked h₁.1.ticks
      exact onDatagram_ending (hticked h₁.1.ticks) (hpacket.ok h₁.2)
  | advanceTime elapsed =>
      refine Ends.after (P := Ending []) (ends_bind.2 ?_)
      exact Ends.mono (advanceTime_ending h hkept htimely) (fun _ _ h' => h'.1) fun _ _ h' => h'.1
  | openStream => exact hticked (Within.after (ends_map.2 openStream_ticks))
  | writeStream id data fin =>
      exact hticked (Within.after (ends_map.2 (writeStream_ticks id data fin)))
  | readStream id maxLen => exact hticked (Within.after (ends_map.2 (readStream_ticks id maxLen)))
  | close errorCode reason =>
      refine hticked (Within.after ((close_ticks errorCode reason (fun _ => trivial)
        (fun _ _ _ => trivial) fun hrank hrefused => ?_).bind fun _ _ => .pure _))
      cases (htimely hrank : c.canClose = true).symm.trans hrefused
  | drainOutput => exact hticked (Within.after (ends_map.2 drainOutput_ticks))

theorem fresh_ending {role : ConnectionRole} {config : ConnectionConfig}
    (h : Fresh suite role config c) : Ending [] c := by
  obtain ⟨c₀, hsound, hbased, _, _, hrank, hticks⟩ := fresh_ticks h
  have hopen : c₀.clock.Ending [] := fun hst => by
    have hst : c₀.state = .closing := hst
    rw [hst] at hrank
    exact absurd hrank (Nat.lt_irrefl _)
  have hticks : Ticks (fun _ => True) False False c₀ c := hticks
  exact (hticks.ending ⟨hsound, hbased, hopen⟩).1

/-- A close timer is pending, and late enough an advance that runs closes the
connection. -/
structure Connection.WillClose (c : Connection) : Prop where
  pending : ∃ id, c.timers.live id = some .closeTimeout
  closes : ∃ bound, ∀ elapsed ≥ bound, c.now + elapsed ≤ durationMax →
    (answer (advance elapsed) c.timers).isSome = true → TimelyBatch c elapsed →
      (after (advanceTime elapsed) c).state = .closed

end DartUdp.Core
