import DartUdp.Core.Net
import DartUdp.Proofs.ConnLife
import DartUdp.Proofs.ConnRecovery

/-!
# The lifecycle of a connection

Over a run the state of a connection only moves up, inside an operation as well
as between two, as long as no retransmission is given up on a closed
connection. That can only happen in a batch of timers: the close timer goes off,
and a later event of the same batch finds its packet at its last retransmission
and sets the state back to Closing.

The module is for `lifecycle_rises`. Which events of a batch give a packet up can be
told before it, since dealing with one event changes nothing of that for the others
(`processTimer_spares`). So `processTimers_rises` is an induction over the batch in
whatever order it comes, and `outputs_rise` one over the run.
-/

namespace DartUdp.Core

open DartUdp.Lib DartUdp.Udp

variable {suite : Suite} {F : Prop} {base : Nat} {c c' : Connection}

/-! ## Giving up -/

/-- The event is about a packet that is not acknowledged and has been
retransmitted as often as it may. -/
def Connection.givesUp (c : Connection) : TimerEvent → Bool
  | .retransmit packetNumber generation =>
      match c.transport.sent[packetNumber]? with
      | some packet => packet.generation = generation &&
          c.config.maxRetransmissions < min (packet.retransmitCount + 1) u32Max
      | none => false
  | _ => false

theorem givesUp_eq_false {event : TimerEvent} (h : ∀ n g, event ≠ .retransmit n g) :
    c.givesUp event = false := by
  cases event with
  | retransmit n g => exact absurd rfl (h n g)
  | _ => rfl

theorem takeWhile_congr {α : Type} {p q : α → Bool} {xs : List α} (h : ∀ x ∈ xs, p x = q x) :
    xs.takeWhile p = xs.takeWhile q := by
  induction xs with
  | nil => rfl
  | cons x xs ih =>
      rw [List.takeWhile_cons, List.takeWhile_cons, h x List.mem_cons_self,
        ih fun y hy => h y (List.mem_cons_of_mem _ hy)]

/-- The events about packets before `base` give up as they did. -/
def Spares (base : Nat) (c c' : Connection) : Prop :=
  ∀ event, (∀ n g, event = .retransmit n g → n < base) → c'.givesUp event = c.givesUp event

theorem Grows.spares (h : Grows F base c c') : Spares base c c' := fun event hlt => by
  cases event with
  | retransmit n g =>
      simp only [Connection.givesUp]
      rw [h.kept n (hlt n g rfl), h.limit]
  | _ => rfl

theorem putBackAll_error (count : Nat) (frames : List QueuedFrame) :
    Ends (putBackAll count frames) c (fun _ _ => True) fun e _ => e ≠ .retransmissionLimit := by
  induction frames generalizing c with
  | nil => trivial
  | cons queued rest ih =>
      rw [putBackAll, ends_bind]
      have hput : Ends (putBack queued.frame count) c (fun _ _ => True)
          fun e _ => e ≠ .retransmissionLimit := by
        unfold putBack
        split
        · simp only [ends_onStreams, requeueData, ends_bind, ends_record, ends_modify]
          exact ⟨fun _ _ => trivial, fun _ => CoreError.noConfusion⟩
        · trivial
      exact hput.mono (fun _ _ _ => ih) fun _ _ h => h

theorem givesUp_of_sent {n : Nat} {p : SentPacket} (hs : c.transport.sent[n]? = some p) (g : Nat) :
    c.givesUp (.retransmit n g) = (decide (p.generation = g) &&
      decide (c.config.maxRetransmissions < min (p.retransmitCount + 1) u32Max)) := by
  unfold Connection.givesUp
  simp only [hs]

theorem givesUp_of_unsent {n : Nat} (hs : c.transport.sent[n]? = none) (g : Nat) :
    c.givesUp (.retransmit n g) = false := by
  unfold Connection.givesUp
  simp only [hs]

/-- A retransmission ends well only when its packet is not given up, and then the
other packets stay; it runs into the limit only when the packet is given up. -/
theorem processRetransmit_ends (base n g : Nat) :
    Ends (processRetransmit n g) c
      (fun _ c' => c.givesUp (.retransmit n g) = false ∧ Spares base c c')
      fun e _ => e = .retransmissionLimit → c.givesUp (.retransmit n g) = true := by
  simp only [processRetransmit, ends_bind, ends_get]
  cases hs : c.transport.sent[n]? with
  | none => exact ⟨givesUp_of_unsent hs g, fun _ _ => rfl⟩
  | some packet =>
      have hgives := givesUp_of_sent hs
      simp only [ends_steps, ends_modifyTransport]
      refine ⟨fun hg => ⟨?_, fun _ _ => rfl⟩, fun hg => ?_⟩
      · rw [hgives, decide_eq_false hg, Bool.false_and]
      · simp only [requeueLost, ends_steps]
        refine ⟨fun hover _ => ?_, fun hunder => ?_⟩
        · rw [hgives, decide_eq_true (not_not.1 hg), decide_eq_true hover]
          rfl
        · have hnot : ∀ g', c.givesUp (.retransmit n g') = false := fun g' => by
            rw [hgives, decide_eq_false hunder, Bool.and_false]
          refine ((putBackAll_still _ _).and (putBackAll_error _ _)).mono
            (fun _ c' h => ⟨hnot g, fun event _ => ?_⟩) fun e _ h hlimit => absurd hlimit h.2
          cases event with
          | retransmit m g' =>
              have hsent : c'.transport.sent[m]? = (c.transport.sent.erase n)[m]? := by
                rw [h.1.sent]
              rw [Std.TreeMap.getElem?_erase] at hsent
              by_cases hm : m = n
              · subst hm
                rw [if_pos (Std.compare_eq_iff_eq.2 rfl)] at hsent
                rw [givesUp_of_unsent hsent, hnot]
              · rw [if_neg fun heq => hm (Std.compare_eq_iff_eq.1 heq).symm] at hsent
                simp only [Connection.givesUp]
                rw [hsent, h.1.limit]
          | _ => rfl

/-! ## A batch of timers -/

/-- No packet is given up in the batch on a connection that is closed, or that an
earlier event of the batch closes. -/
def Orderly (c : Connection) (events : List TimerEvent) : Prop :=
  c.state = .closed ∨ .closeTimeout ∈ events.takeWhile (!c.givesUp ·) →
    ∀ event ∈ events, c.givesUp event = false

/-- An event whose packet is not given up moves the state up. -/
theorem processTimer_rises {event : TimerEvent} (hgives : c.givesUp event = false)
    (hF : event = .closeTimeout → F) : Within (Rises F) (processTimer event) c := by
  by_cases hevent : ∃ n g, event = .retransmit n g
  · obtain ⟨n, g, rfl⟩ := hevent
    rw [processTimer, closeOnLimit, Within, ends_tryCatch]
    refine ((processRetransmit_rises n g).and (processRetransmit_ends 0 n g)).mono
      (fun _ _ h => h.1) fun e c₁ h => ?_
    simp only [ends_steps]
    refine ⟨fun hlimit => ?_, fun _ => h.1⟩
    rw [h.2 hlimit] at hgives
    cases hgives
  · exact (processTimer_grows (fun n g h => hevent ⟨n, g, h⟩) (Nat.le_refl _) hF).mono
      fun _ => Grows.toRises

/-- So does one whose packet is given up on an open connection. -/
theorem processTimer_opened {event : TimerEvent} (hopen : c.state ≠ .closed)
    (hevent : event ≠ .closeTimeout) : Within (Rises F) (processTimer event) c := by
  by_cases hretransmit : ∃ n g, event = .retransmit n g
  · obtain ⟨n, g, rfl⟩ := hretransmit
    exact closeOnLimit_rises (fun _ => processRetransmit_rises n g) hopen
  · exact (processTimer_grows (fun n g h => hretransmit ⟨n, g, h⟩) (Nat.le_refl _)
      fun h => absurd h hevent).mono fun _ => Grows.toRises

theorem processTimer_spares {event : TimerEvent} (hbase : base ≤ c.transport.nextPacketNumber) :
    Ends (processTimer event) c (fun _ c' => c.givesUp event = false ∧ Spares base c c')
      fun _ _ => True := by
  by_cases hevent : ∃ n g, event = .retransmit n g
  · obtain ⟨n, g, rfl⟩ := hevent
    rw [processTimer, closeOnLimit, ends_tryCatch]
    refine (processRetransmit_ends base n g).mono (fun _ _ h => h) fun e c₁ h => ?_
    simp only [ends_steps]
    exact ⟨fun _ => trivial, fun _ => trivial⟩
  · have hother : ∀ n g, event ≠ .retransmit n g := fun n g h => hevent ⟨n, g, h⟩
    exact Ends.mono (processTimer_grows (F := True) hother hbase fun _ => trivial)
      (fun _ _ h => ⟨givesUp_eq_false hother, h.spares⟩) fun _ _ _ => trivial

/-- A connection that is closed after an event was so before, unless the event is
the end of the close timer. -/
theorem processTimer_closed (event : TimerEvent) :
    Ends (processTimer event) c
      (fun _ c' => c'.state = .closed → c.state = .closed ∨ event = .closeTimeout)
      fun _ _ => True := by
  by_cases hopen : c.state ≠ .closed ∧ event ≠ .closeTimeout
  · exact Ends.mono (processTimer_opened (F := False) hopen.1 hopen.2)
      (fun _ c' h hst => absurd hst (h.opened hopen.1)) fun _ _ _ => trivial
  · exact .of_forall (fun _ _ _ => by tauto) fun _ _ => trivial

/-- **A batch.** Whatever expires together and in which order, an orderly batch
moves the state up, and closes the connection only with the close timer. -/
theorem processTimers_rises {events : List TimerEvent} (hbase : base ≤ c.transport.nextPacketNumber)
    (hnumbers : ∀ n g, .retransmit n g ∈ events → n < base) (h : Orderly c events)
    (hF : .closeTimeout ∈ events.takeWhile (!c.givesUp ·) → F) :
    Within (Rises F) (processTimers events) c := by
  induction events generalizing c with
  | nil => exact .pure _
  | cons event rest ih =>
      refine .modify_bind (.mute rfl rfl rfl (Nat.le_refl _) (.clearSlot event)) ?_
      generalize hc₀ : ({ c with timers := c.timers.clearSlot event } : Connection) = c₀
      have hgives : ∀ e, c₀.givesUp e = c.givesUp e := fun e => by
        subst hc₀
        cases e <;> rfl
      have hstate : c₀.state = c.state := hc₀ ▸ rfl
      have hbase : base ≤ c₀.transport.nextPacketNumber := hc₀ ▸ hbase
      rw [Within, ends_bind]
      cases hg : c₀.givesUp event with
      | true =>
          -- The batch ends with the packet that is given up.
          have hopen : c₀.state ≠ .closed := fun hst => by
            have := h (.inl (hstate ▸ hst)) event List.mem_cons_self
            rw [← hgives, hg] at this
            cases this
          have hevent : event ≠ .closeTimeout := fun heq => by
            subst heq
            cases hg
          refine ((processTimer_opened hopen hevent).and (processTimer_spares hbase)).mono
            (fun _ c₁ h₁ => ?_) fun _ _ h₁ => h₁.1
          rw [h₁.2.1] at hg
          cases hg
      | false =>
          have hkept : (!c.givesUp event) = true := by rw [← hgives, hg]; rfl
          rw [List.takeWhile_cons, if_pos hkept] at hF
          refine ((processTimer_rises hg fun heq => hF (List.mem_cons.2 (.inl heq.symm))).and
            ((processTimer_spares hbase).and (processTimer_closed event))).mono
            (fun _ c₁ h₁ => ?_) fun _ _ h₁ => h₁.1
          obtain ⟨hrises, ⟨_, hspares⟩, hclosed⟩ := h₁
          have hsame : ∀ e ∈ rest, c₁.givesUp e = c.givesUp e := fun e he =>
            (hspares e fun n g heq => hnumbers n g (List.mem_cons_of_mem _ (heq ▸ he))).trans
              (hgives e)
          have hreached : rest.takeWhile (!c₁.givesUp ·) = rest.takeWhile (!c.givesUp ·) :=
            takeWhile_congr fun e he => congrArg (! ·) (hsame e he)
          refine Within.trans hrises (ih (hbase.trans hrises.next)
            (fun n g hmem => hnumbers n g (List.mem_cons_of_mem _ hmem)) (fun hlate e he => ?_)
            fun hmem => hF (List.mem_cons_of_mem _ (hreached ▸ hmem)))
          rw [hsame e he]
          refine h ?_ e (List.mem_cons_of_mem _ he)
          rw [List.takeWhile_cons, if_pos hkept, List.mem_cons]
          rcases hlate with hst | hmem
          · rcases hclosed hst with hst | heq
            · exact .inl (hstate ▸ hst)
            · exact .inr (.inl heq.symm)
          · exact .inr (.inr (hreached ▸ hmem))

/-! ## Runs -/

/-- The events an advance hands out. -/
def Connection.due (c : Connection) (elapsed : Nat) : List TimerEvent :=
  (answer (advance elapsed) c.timers).getD []

/-- The batch of an advance is orderly. -/
def OrderlyStep (c : Connection) : Op → Prop
  | .advanceTime elapsed => Orderly c (c.due elapsed)
  | _ => True

/-- Every operation of the run is orderly in the state it finds. -/
def OrderlyRun (suite : Suite) (c : Connection) : List Op → Prop
  | [] => True
  | op :: ops => OrderlyStep c op ∧ OrderlyRun suite (after (perform suite op) c) ops

instance (events : List TimerEvent) : Decidable (Orderly c events) :=
  inferInstanceAs (Decidable (_ → _))

instance : (op : Op) → Decidable (OrderlyStep c op)
  | .advanceTime elapsed => inferInstanceAs (Decidable (Orderly c (c.due elapsed)))
  | .onDatagram _ | .onDatagramBytes _ | .openStream | .writeStream .. | .readStream .. | .close ..
  | .drainOutput => .isTrue trivial

instance OrderlyRun.decidable : (c : Connection) → (ops : List Op) →
    Decidable (OrderlyRun suite c ops)
  | _, [] => .isTrue trivial
  | c, op :: ops =>
      have := OrderlyRun.decidable (after (perform suite op) c) ops
      inferInstanceAs (Decidable (_ ∧ _))

/-- The wheel hands out events of packets that were numbered. -/
theorem advance_due (ha : Armed c) (elapsed : Nat) :
    Ends (advance elapsed) c.timers
      (fun events t => events = c.due elapsed ∧ Adds c.Awaits c.timers t ∧
        ∀ event ∈ events, c.Awaits event)
      fun _ t => Adds c.Awaits c.timers t := by
  refine ((Adds.advance elapsed).and ((Ends.run _ _).and (advance_ends ha.sound elapsed))).mono
    (fun events t h => ⟨?_, h.1, fun event hmem => ?_⟩) fun _ _ h => h.1
  · unfold Connection.due answer
    rw [h.2.1]
    rfl
  · obtain ⟨ids, _, hids, _⟩ := h.2.2
    have hin : some event ∈ ids.map c.timers.live := hids ▸ List.mem_map.2 ⟨event, hmem, rfl⟩
    obtain ⟨id, _, hlive⟩ := List.mem_map.1 hin
    exact ha.awaits id event hlive

theorem advanceTime_rises (ha : Armed c) {elapsed : Nat} (h : Orderly c (c.due elapsed))
    (hF : .closeTimeout ∈ (c.due elapsed).takeWhile (!c.givesUp ·) → F) :
    Within (Rises F) (advanceTime elapsed) c := by
  simp only [advanceTime, Within, ends_steps, onTimers, ends_zoom]
  refine ⟨fun _ => Std.Refl.refl c, fun _ => ?_⟩
  refine (advance_due ha elapsed).mono (fun events t ht => ?_)
    fun _ t ht => .mute rfl rfl rfl (Nat.le_refl _) ht
  obtain ⟨rfl, hadds, hawaits⟩ := ht
  have hlater : Rises F c { c with now := c.now + elapsed, timers := t } :=
    .mute rfl rfl rfl (Nat.le_refl _) hadds
  have hbatch : Within (Rises F) (processTimers (c.due elapsed))
      { c with now := c.now + elapsed, timers := t } :=
    processTimers_rises (Nat.le_refl _) (fun n g hmem => hawaits _ hmem) h hF
  exact ends_bind.1 (Within.trans hlater (hbatch.bind fun _ _ => flush_rises))

/-- What an operation puts out leads from the state before to the state after. -/
theorem perform_rises (ha : Armed c) {op : Op} (hop : op ≠ .drainOutput) (h : OrderlyStep c op) :
    Rises True c (after (perform suite op) c) := by
  refine Within.after ?_
  cases op with
  | onDatagram p => exact (onDatagram_rises p fun _ => trivial).bind fun _ _ => .pure _
  | onDatagramBytes bytes =>
      exact Within.bind ((rises_of_still (decodeDatagram_still bytes)).bind fun p _ =>
        onDatagram_rises p fun _ => trivial) fun _ _ => .pure _
  | advanceTime elapsed => exact (advanceTime_rises ha h fun _ => trivial).bind fun _ _ => .pure _
  | openStream => exact ends_map.2 openStream_rises
  | writeStream id data fin => exact ends_map.2 (writeStream_rises id data fin)
  | readStream id maxLen => exact ends_map.2 (readStream_rises id maxLen)
  | close errorCode reason => exact (close_rises errorCode reason).bind fun _ _ => .pure _
  | drainOutput => exact absurd rfl hop

theorem outputs_rise {ops : List Op} (ha : Armed c) (h : OrderlyRun suite c ops) :
    ∃ more, outputs suite c ops = c.output ++ more ∧
      Rise True c.state more (final suite c ops).state := by
  induction ops generalizing c with
  | nil => exact ⟨[], (List.append_nil _).symm, rfl⟩
  | cons op rest ih =>
      by_cases hop : op = .drainOutput
      · subst hop
        have ha' : Armed { c with output := [] } := ⟨ha.sound, ha.awaits⟩
        obtain ⟨more, hmore, hrise⟩ := ih (c := { c with output := [] }) ha' h.2
        exact ⟨more, congrArg (c.output ++ ·) hmore, hrise⟩
      · have hstep : Rises True c (after (perform suite op) c) := perform_rises ha hop h.1
        obtain ⟨more, hmore, hrise⟩ := hstep.outputs
        obtain ⟨more', hmore', hrise'⟩ := ih (hstep.armed ha) h.2
        refine ⟨more ++ more', ?_, hrise.append hrise'⟩
        rw [outputs, drained_eq_nil suite hop, List.nil_append, hmore', hmore, List.append_assoc]

/-! ## The start -/

/-- The state a connection is built in. -/
def ConnectionRole.initialState : ConnectionRole → ConnectionState
  | .client => .handshaking
  | .server => .idle

theorem start_rises (startHandshake : Bool) : Within (Rises F) (start suite startHandshake) c := by
  refine .get_bind ((onTimers_rises (Adds.scheduleIdle trivial _)).bind fun _ _ => ?_)
  have hshake : ∀ c', Within (Rises F) (do
      if startHandshake then
        startClient suite
        flush) c' := fun _ =>
    .ite (fun _ => startClient_rises.bind fun _ _ => flush_rises) fun _ => .pure _
  cases c.config.keepaliveInterval with
  | some interval =>
      exact (onTimers_rises (Adds.scheduleKeepalive trivial _)).bind fun _ _ => hshake _
  | none => exact hshake _

/-- What comes out at the start leads to the state the connection starts with. -/
theorem fresh_rise {role : ConnectionRole} {config : ConnectionConfig}
    (h : Fresh suite role config c) :
    Armed c ∧ Rise False role.initialState c.output c.state := by
  obtain ⟨_, id, handshake, timers, _, htimers, hrun⟩ := fresh_starts h
  obtain ⟨hsound, _, hlive⟩ := new_live htimers
  have hstart := Ends.ok (start_rises (F := False) _) hrun
  obtain ⟨more, hmore, hrise⟩ := hstart.outputs
  refine ⟨hstart.armed ⟨hsound, fun id event hevent => ?_⟩, ?_⟩
  · cases (hlive id).symm.trans hevent
  · rw [show c.output = more from hmore]
    cases role <;> exact hrise

/-! ## Over a run -/

/-- The state an output announces. -/
def CoreOutput.changed : CoreOutput → Option ConnectionState
  | .connectionStateChanged s => some s
  | _ => none

/-- The states of a connection from the start on, by what it put out. -/
def ConnectionRole.states (role : ConnectionRole) (outs : List CoreOutput) : List ConnectionState :=
  role.initialState :: outs.filterMap CoreOutput.changed

theorem Rise.states {s s' : ConnectionState} {outs : List CoreOutput} (h : Rise F s outs s') :
    (s :: outs.filterMap CoreOutput.changed).Pairwise (·.rank < ·.rank) ∧
      (s :: outs.filterMap CoreOutput.changed).getLast? = some s' := by
  induction outs generalizing s with
  | nil => exact ⟨List.pairwise_singleton _ _, congrArg some h.symm⟩
  | cons out rest ih =>
      obtain ⟨hpermits, hrest⟩ := h
      obtain ⟨hpairs, hlast⟩ := ih hrest
      cases out with
      | connectionStateChanged t =>
          refine ⟨List.pairwise_cons.2 ⟨fun x hx => ?_, hpairs⟩, ?_⟩
          · rcases List.mem_cons.1 hx with rfl | hx
            · exact hpermits.1
            · exact hpermits.1.trans (List.rel_of_pairwise_cons hpairs hx)
          · exact (List.getLast?_cons_cons).trans hlast
      | _ => exact ⟨hpairs, hlast⟩

theorem orderlyRun_append {ops ops' : List Op} (h : OrderlyRun suite c (ops ++ ops')) :
    OrderlyRun suite c ops ∧ OrderlyRun suite (final suite c ops) ops' := by
  induction ops generalizing c with
  | nil => exact ⟨trivial, h⟩
  | cons op rest ih =>
      obtain ⟨hrest, hlater⟩ := ih h.2
      exact ⟨⟨h.1, hrest⟩, hlater⟩

/-- The state after a run is not lower than the one before it. -/
theorem final_rank_le {ops : List Op} (ha : Armed c) (h : OrderlyRun suite c ops) :
    Armed (final suite c ops) ∧ c.state.rank ≤ (final suite c ops).state.rank := by
  induction ops generalizing c with
  | nil => exact ⟨ha, Nat.le_refl _⟩
  | cons op rest ih =>
      by_cases hop : op = .drainOutput
      · subst hop
        exact ih (c := { c with output := [] }) ⟨ha.sound, ha.awaits⟩ h.2
      · have hstep : Rises True c (after (perform suite op) c) := perform_rises ha hop h.1
        obtain ⟨ha', hle⟩ := ih (hstep.armed ha) h.2
        exact ⟨ha', hstep.rank_le.trans hle⟩

/-- **The lifecycle.** Over every run whose batches are orderly the states of a
connection strictly rise, those inside an operation included, and end in the one
the run ends in; no operation leaves a lower state than an earlier one, so a
connection that is Closed stays so. -/
theorem lifecycle_rises (suite : Suite) (role : ConnectionRole) (config : ConnectionConfig)
    (c : Connection) (ops : List Op) (hfresh : Fresh suite role config c)
    (horderly : OrderlyRun suite c ops) :
    (role.states (outputs suite c ops)).Pairwise (·.rank < ·.rank) ∧
      (role.states (outputs suite c ops)).getLast? = some (final suite c ops).state ∧
      ∀ pre post, ops = pre ++ post →
        (final suite c pre).state.rank ≤ (final suite c ops).state.rank ∧
          ((final suite c pre).state = .closed → (final suite c ops).state = .closed) := by
  obtain ⟨ha, hstart⟩ := fresh_rise hfresh
  obtain ⟨more, hmore, hrise⟩ := outputs_rise ha horderly
  have hall := (hstart.mono False.elim).append hrise
  rw [← hmore] at hall
  refine ⟨hall.states.1, hall.states.2, fun pre post hops => ?_⟩
  subst hops
  obtain ⟨hpre, hpost⟩ := orderlyRun_append horderly
  have hle := (final_rank_le (final_rank_le ha hpre).1 hpost).2
  rw [← final_append] at hle
  refine ⟨hle, fun hclosed => ?_⟩
  rw [hclosed] at hle
  revert hle
  cases (final suite c (pre ++ post)).state <;> decide

/-- The client is told to close, and a second passes. -/
def closingRun : List Op := [.close 0 [], .advanceTime 1000000000]

theorem lifecycle_rises_sample : ∃ c, Fresh sampleSuite .client {} c ∧
    (ConnectionRole.client.states (outputs sampleSuite c closingRun)).Pairwise (·.rank < ·.rank) ∧
    (ConnectionRole.client.states (outputs sampleSuite c closingRun)).getLast? = some .closed := by
  obtain ⟨c, hc, hrun⟩ := of_checks (r := sampleConnection .client {})
    (p := fun c => decide (OrderlyRun sampleSuite c closingRun) &&
      decide ((final sampleSuite c closingRun).state = .closed)) (by decide +kernel)
  obtain ⟨horderly, hclosed⟩ := Bool.and_eq_true_iff.1 hrun
  have hfresh := sampleConnection_fresh hc
  obtain ⟨hrise, hlast, _⟩ := lifecycle_rises sampleSuite .client {} c closingRun hfresh
    (of_decide_eq_true horderly)
  rw [of_decide_eq_true hclosed] at hlast
  exact ⟨c, hfresh, hrise, hlast⟩

/-- **A closed connection that closes again.** Without retransmissions, the close
timer and the timer of the packet with the close go off in one batch; the packet
is given up on the connection that has just been closed. -/
theorem closed_reopens : ∃ c, Fresh sampleSuite .client { maxRetransmissions := 0 } c ∧
    ConnectionRole.client.states (outputs sampleSuite c closingRun) =
      [.handshaking, .closing, .closed, .closing] ∧
    (final sampleSuite c closingRun).state = .closing ∧
    ¬ (ConnectionRole.client.states (outputs sampleSuite c closingRun)).Pairwise
      (·.rank < ·.rank) := by
  obtain ⟨c, hc, hrun⟩ := of_checks (r := sampleConnection .client { maxRetransmissions := 0 })
    (p := fun c => decide (ConnectionRole.client.states (outputs sampleSuite c closingRun) =
      [.handshaking, .closing, .closed, .closing] ∧
      (final sampleSuite c closingRun).state = .closing)) (by decide +kernel)
  obtain ⟨hstates, hfinal⟩ := of_decide_eq_true hrun
  refine ⟨c, sampleConnection_fresh hc, hstates, hfinal, ?_⟩
  rw [hstates]
  decide

end DartUdp.Core
