import Mathlib.Logic.Function.Basic
import DartUdp.Core.Recovery
import DartUdp.Core.Timers
import DartUdp.Proofs.WheelRefines

/-!
# The live timers of a connection

What a connection relies on of its wheel: which events are pending under which
ids. The wheel refines the timer map, and the map says what each call does to
the pending timers; ids are never handed out twice, so an id of a timer that is
gone cancels nothing.

`Timed` is the invariant of the packets sent and their timers, with a lemma for each
function of `TimerState`. `Adds` says which events a call may have made pending.
-/

namespace DartUdp.Core

open DartUdp.Lib DartUdp.TimeWheel

variable {t t' : TimerState} {α : Type}

namespace TimerState

/-- The event pending under the id. -/
def live (t : TimerState) (id : Nat) : Option TimerEvent := (t.wheel.tasks.get? id).map (·.item)

/-- The id the next timer gets. -/
def nextId (t : TimerState) : Nat := t.wheel.tasks.next

/-- The ids of the timers there is at most one of. -/
def slots (t : TimerState) : List (Option Nat) := [t.handshake, t.ack, t.keepalive, t.idle, t.close]

/-- The wheel stands for a timer map. -/
def Sound (t : TimerState) : Prop := ∃ base m, Shows base t.wheel m

theorem live_of_nextId_le {id : Nat} (h : t.nextId ≤ id) : t.live id = none := by
  unfold live
  rw [show t.wheel.tasks.get? id = none from t.wheel.tasks.fresh id h]
  rfl

end TimerState

theorem live_eq_timers {base : Nat} {m : TimerMap TimerEvent} (h : Shows base t.wheel m)
    (id : Nat) : t.live id = (m.timers id).map (·.item) := by
  have htimer := congrArg (Option.map Prod.fst) (h.timers id)
  rw [Wheel.timer, Option.map_map, Option.map_map] at htimer
  exact htimer

/-- What a call of the wheel leaves: the pending events and the next id. -/
structure Rewheeled (t : TimerState) (live : Nat → Option TimerEvent) (nextId : Nat)
    (t' : TimerState) : Prop where
  slots : t'.slots = t.slots
  sound : t'.Sound
  live : t'.live = live
  nextId : t'.nextId = nextId

/-- A timer map that the wheel shows after a call. -/
theorem Rewheeled.of_shows {base next : Nat} {w : Wheel TimerEvent} {m : TimerMap TimerEvent}
    {live : Nat → Option TimerEvent} (h : Shows base w m)
    (hlive : ∀ id, (m.timers id).map (·.item) = live id) (hnext : m.next = next) :
    Rewheeled t live next { t with wheel := w } := by
  refine ⟨rfl, ⟨base, m, h⟩, ?_, h.next.symm.trans hnext⟩
  funext id
  exact (live_eq_timers h id).trans (hlive id)

theorem schedule_ends (h : t.Sound) (event : TimerEvent) (delay : Nat) :
    Ends (schedule event delay) t
      (fun id t' => id = t.nextId ∧
        Rewheeled t (Function.update t.live t.nextId (some event)) (t.nextId + 1) t')
      fun _ _ => True := by
  obtain ⟨base, m, hm⟩ := h
  obtain ⟨m', hallows, hm'⟩ := step_insert hm event delay
  have hnext : t.nextId = m.next := hm.next.symm
  unfold Ends schedule onWheel
  simp only [Wheel.step] at hallows hm'
  cases hrun : insert event delay t.wheel with
  | error e w => trivial
  | ok id w =>
      rw [hrun] at hallows hm'
      obtain ⟨_, rfl, rfl⟩ := hallows
      rw [hnext]
      refine ⟨rfl, .of_shows hm' (fun id => ?_) rfl⟩
      show Option.map _ (if id = m.next then _ else m.timers id) = _
      by_cases hid : id = m.next
      · rw [if_pos hid, hid, Function.update_self]
        rfl
      · rw [if_neg hid, Function.update_of_ne hid, live_eq_timers hm]

/-- Cancelling forgets the one timer, whether it is there or not. -/
theorem cancel_rewheeled (h : t.Sound) (timer : Nat) :
    Rewheeled t (Function.update t.live timer none) t.nextId (t.cancel timer) := by
  obtain ⟨base, m, hm⟩ := h
  obtain ⟨m', hallows, hm'⟩ := step_cancel hm timer
  obtain ⟨_, rfl⟩ := hallows
  have hwheel :
      (Wheel.step t.wheel (.cancel timer)).2 = after (TimeWheel.cancel timer) t.wheel := by
    show (outcome (TimeWheel.cancel timer t.wheel)).2 = _
    unfold outcome after
    cases TimeWheel.cancel timer t.wheel with
    | ok a w => rfl
    | error e w => rfl
  rw [hwheel] at hm'
  refine .of_shows hm' (fun id => ?_) hm.next
  show Option.map _ (if id = timer then none else m.timers id) = _
  by_cases hid : id = timer
  · rw [if_pos hid, hid, Function.update_self]
    rfl
  · rw [if_neg hid, Function.update_of_ne hid, live_eq_timers hm]

/-- An advance hands out some of the pending events, each once, and forgets
their timers. -/
theorem advance_ends (h : t.Sound) (elapsed : Nat) :
    Ends (advance elapsed) t
      (fun events t' => ∃ ids : List Nat, ids.Nodup ∧ events.map some = ids.map t.live ∧
        Rewheeled t (fun id => if id ∈ ids then none else t.live id) t.nextId t')
      fun _ _ => True := by
  obtain ⟨base, m, hm⟩ := h
  obtain ⟨m', hallows, hm'⟩ := step_advanceBy hm elapsed
  simp only [Wheel.step] at hallows hm'
  simp only [advance, ends_bind, ends_pure]
  unfold Ends onWheel
  cases hrun : advanceBy elapsed [] t.wheel with
  | error e w => trivial
  | ok r w =>
      obtain ⟨report, expired⟩ := r
      rw [hrun] at hallows hm'
      obtain ⟨_, _, _, hnodup, hmem, rfl⟩ := hallows
      refine ⟨expired.map (·.id), hnodup, ?_, .of_shows hm' (fun id => ?_) hm.next⟩
      · rw [List.map_map, List.map_map]
        refine List.map_congr_left fun x hx => ?_
        obtain ⟨timer, htimer, _, hitem, _⟩ := (hmem x).1 hx
        show some x.item = t.live x.id
        rw [live_eq_timers hm, htimer, hitem]
        rfl
      · show Option.map _ ((m.timers id).filter _) = _
        rw [live_eq_timers hm]
        cases htimer : m.timers id with
        | none => simp
        | some timer =>
            by_cases hdue : timer.due base ≤ (m.elapsed + elapsed) / base
            · have hin : id ∈ expired.map (·.id) := List.mem_map.2
                ⟨⟨id, timer.item, timer.due base⟩, (hmem _).2 ⟨timer, htimer, hdue, rfl, rfl⟩, rfl⟩
              rw [if_pos hin, Option.filter_some, if_neg (by simpa using hdue)]
              rfl
            · have hout : id ∉ expired.map (·.id) := fun hin => by
                obtain ⟨x, hx, rfl⟩ := List.mem_map.1 hin
                obtain ⟨timer', htimer', hle, _⟩ := (hmem x).1 hx
                cases htimer.symm.trans htimer'
                exact hdue hle
              rw [if_neg hout, Option.filter_some, if_pos (by simpa using hdue)]

/-! ## The timers of the packets sent -/

/-- Every packet has its own timer, but for those whose timer is among the
events `due` that are still to be handled; and no other timer is a packet's. -/
structure Timed (sent : Nat → Option SentPacket) (next : Nat) (due : List TimerEvent)
    (t : TimerState) : Prop where
  sound : t.Sound
  slots : ∀ id, some id ∈ t.slots → id < t.nextId ∧ ∀ n g, t.live id ≠ some (.retransmit n g)
  packets : ∀ n p, sent n = some p → n < next ∧
    (t.live p.timerId = some (.retransmit n p.generation) ∨ .retransmit n p.generation ∈ due)
  owners : ∀ id n g, t.live id = some (.retransmit n g) →
    (∃ p, sent n = some p ∧ p.timerId = id ∧ p.generation = g) ∧ ∀ g', .retransmit n g' ∉ due
  early : ∀ n g, .retransmit n g ∈ due → n < next

namespace Timed

variable {sent : Nat → Option SentPacket} {next : Nat} {due rest : List TimerEvent}
  {event : TimerEvent}

theorem mono {next' : Nat} (h : Timed sent next due t) (hle : next ≤ next') :
    Timed sent next' due t :=
  ⟨h.sound, h.slots,
    fun n p hp => ⟨(h.packets n p hp).1.trans_le hle, (h.packets n p hp).2⟩, h.owners,
    fun n g hg => (h.early n g hg).trans_le hle⟩

/-- Only the slots change, and what they hold is not a packet's timer. -/
theorem slot (h : Timed sent next due t) (hwheel : t'.wheel = t.wheel)
    (hslots : ∀ id, some id ∈ t'.slots →
      id < t.nextId ∧ ∀ n g, t.live id ≠ some (.retransmit n g)) : Timed sent next due t' := by
  have hlive : t'.live = t.live := by
    unfold TimerState.live
    rw [hwheel]
  have hnext : t'.nextId = t.nextId := by
    unfold TimerState.nextId
    rw [hwheel]
  refine ⟨?_, fun id hid => ?_, ?_, ?_, h.early⟩
  · unfold TimerState.Sound
    rw [hwheel]
    exact h.sound
  · rw [hlive, hnext]
    exact hslots id hid
  · rw [hlive]
    exact h.packets
  · rw [hlive]
    exact h.owners

/-- An id is dropped from a slot. -/
theorem unslot (h : Timed sent next due t) (hwheel : t'.wheel = t.wheel)
    (hslots : ∀ id, some id ∈ t'.slots → some id ∈ t.slots) : Timed sent next due t' :=
  h.slot hwheel fun id hid => h.slots id (hslots id hid)

/-- The pending retransmissions stay as they are. -/
theorem rewheel {live : Nat → Option TimerEvent} {nextId : Nat} (h : Timed sent next due t)
    (ht : Rewheeled t live nextId t') (hnext : t.nextId ≤ nextId)
    (hlive : ∀ id n g, live id = some (.retransmit n g) ↔ t.live id = some (.retransmit n g)) :
    Timed sent next due t' := by
  refine ⟨ht.sound, fun id hid => ?_, fun n p hp => ?_, fun id n g hg => ?_, h.early⟩
  · rw [ht.slots] at hid
    obtain ⟨hlt, hnot⟩ := h.slots id hid
    rw [ht.nextId, ht.live]
    exact ⟨hlt.trans_le hnext, fun n g hg => hnot n g ((hlive id n g).1 hg)⟩
  · obtain ⟨hlt, hp⟩ := h.packets n p hp
    rw [ht.live, hlive]
    exact ⟨hlt, hp⟩
  · rw [ht.live, hlive] at hg
    exact h.owners id n g hg

/-- A timer that is not a packet's is set. -/
theorem schedule (h : Timed sent next due t) (hevent : ∀ n g, event ≠ .retransmit n g)
    (delay : Nat) :
    Ends (schedule event delay) t
      (fun id t' => Timed sent next due t' ∧ t'.slots = t.slots ∧ id < t'.nextId ∧
        t'.live id = some event)
      fun _ _ => True := by
  refine (schedule_ends h.sound event delay).mono (fun id t' ht => ?_) fun _ _ _ => trivial
  obtain ⟨rfl, ht⟩ := ht
  refine ⟨h.rewheel ht (Nat.le_succ _) fun id n g => ?_, ht.slots, ?_, ?_⟩
  · by_cases hid : id = t.nextId
    · rw [hid, Function.update_self, TimerState.live_of_nextId_le (Nat.le_refl _), Option.some_inj]
      exact ⟨fun heq => absurd heq (hevent n g), nofun⟩
    · rw [Function.update_of_ne hid]
  · rw [ht.nextId]
    exact Nat.lt_succ_self _
  · rw [ht.live, Function.update_self]

/-- What a slot holds is not a packet's timer, so it may be cancelled. -/
theorem cancelIn {slot : Option Nat} (h : Timed sent next due t) (hslot : slot ∈ t.slots) :
    Timed sent next due (t.cancelIn slot) ∧ (t.cancelIn slot).slots = t.slots := by
  cases slot with
  | none => exact ⟨h, rfl⟩
  | some timer =>
      have ht := cancel_rewheeled h.sound timer
      refine ⟨h.rewheel ht (Nat.le_refl _) fun id n g => ?_, rfl⟩
      by_cases hid : id = timer
      · rw [hid, Function.update_self]
        exact ⟨nofun, fun heq => absurd heq ((h.slots timer hslot).2 n g)⟩
      · rw [Function.update_of_ne hid]

/-- A timer that is not a packet's is set, and its id goes into a slot. -/
theorem arm (h : Timed sent next due t) (hevent : ∀ n g, event ≠ .retransmit n g) (delay : Nat)
    {store : Nat → TimerState → TimerState} (hwheel : ∀ id t, (store id t).wheel = t.wheel)
    (hslots : ∀ id t i, some i ∈ (store id t).slots → some i ∈ t.slots ∨ i = id) :
    Ends (do
      let timer ← Core.schedule event delay
      modify (store timer)) t (fun _ t' => Timed sent next due t') fun _ _ => True := by
  simp only [ends_bind, ends_modify]
  refine (h.schedule hevent delay).mono (fun id t₁ h₁ => ?_) fun _ _ _ => trivial
  obtain ⟨h₁, _, hlt, hlive⟩ := h₁
  refine h₁.slot (hwheel id t₁) fun i hi => ?_
  rcases hslots id t₁ i hi with hi | rfl
  · exact h₁.slots i hi
  · refine ⟨hlt, fun n g hg => ?_⟩
    rw [hlive] at hg
    exact hevent n g (Option.some.inj hg)

theorem scheduleHandshake (h : Timed sent next due t) (delay : Nat) :
    Ends (scheduleHandshake delay) t (fun _ t' => Timed sent next due t') fun _ _ => True := by
  refine h.arm (show ∀ n g, TimerEvent.handshakeTimeout ≠ .retransmit n g from
    fun _ _ h => by cases h) delay (fun _ _ => rfl) fun id t i hi => ?_
  simp only [TimerState.slots, List.mem_cons, List.not_mem_nil, Option.some.injEq] at hi ⊢
  tauto

theorem scheduleKeepalive (h : Timed sent next due t) (delay : Nat) :
    Ends (scheduleKeepalive delay) t (fun _ t' => Timed sent next due t') fun _ _ => True := by
  refine h.arm (show ∀ n g, TimerEvent.keepalive ≠ .retransmit n g from fun _ _ h => by cases h)
    delay (fun _ _ => rfl) fun id t i hi => ?_
  simp only [TimerState.slots, List.mem_cons, List.not_mem_nil, Option.some.injEq] at hi ⊢
  tauto

theorem scheduleClose (h : Timed sent next due t) (delay : Nat) :
    Ends (scheduleClose delay) t (fun _ t' => Timed sent next due t') fun _ _ => True := by
  refine h.arm (show ∀ n g, TimerEvent.closeTimeout ≠ .retransmit n g from fun _ _ h => by cases h)
    delay (fun _ _ => rfl) fun id t i hi => ?_
  simp only [TimerState.slots, List.mem_cons, List.not_mem_nil, Option.some.injEq] at hi ⊢
  tauto

theorem scheduleAckTimer (h : Timed sent next due t) (delay : Nat) :
    Ends (scheduleAckTimer delay) t (fun _ t' => Timed sent next due t') fun _ _ => True := by
  unfold Core.scheduleAckTimer
  simp only [ends_bind, ends_get, ends_ite, ends_pure]
  refine ⟨fun _ => ends_bind.1 ?_, fun _ => h⟩
  refine h.arm (show ∀ n g, TimerEvent.ackDelay ≠ .retransmit n g from fun _ _ h => by cases h)
    delay (fun _ _ => rfl) fun id t i hi => ?_
  simp only [TimerState.slots, List.mem_cons, List.not_mem_nil, Option.some.injEq] at hi ⊢
  tauto

theorem scheduleIdle (h : Timed sent next due t) (delay : Nat) :
    Ends (scheduleIdle delay) t (fun _ t' => Timed sent next due t') fun _ _ => True := by
  unfold Core.scheduleIdle
  rw [ends_bind, ends_modify]
  obtain ⟨h₁, hsame⟩ := h.cancelIn (show t.idle ∈ t.slots by simp [TimerState.slots])
  have h₂ : Timed sent next due { t.cancelIn t.idle with idle := none } := by
    refine h₁.unslot rfl fun i hi => ?_
    simp only [TimerState.slots, List.mem_cons, List.not_mem_nil] at hi ⊢
    tauto
  refine h₂.arm (show ∀ n g, TimerEvent.idleTimeout ≠ .retransmit n g from fun _ _ h => by cases h)
    delay (fun _ _ => rfl) fun id t i hi => ?_
  simp only [TimerState.slots, List.mem_cons, List.not_mem_nil, Option.some.injEq] at hi ⊢
  tauto

theorem cancelAck (h : Timed sent next due t) : Timed sent next due t.cancelAck := by
  obtain ⟨h₁, _⟩ := h.cancelIn (show t.ack ∈ t.slots by simp [TimerState.slots])
  refine h₁.unslot rfl fun i hi => ?_
  simp only [TimerState.cancelAck, TimerState.slots, List.mem_cons, List.not_mem_nil] at hi ⊢
  tauto

theorem cancelHandshake (h : Timed sent next due t) : Timed sent next due t.cancelHandshake := by
  obtain ⟨h₁, _⟩ := h.cancelIn (show t.handshake ∈ t.slots by simp [TimerState.slots])
  refine h₁.unslot rfl fun i hi => ?_
  simp only [TimerState.cancelHandshake, TimerState.slots, List.mem_cons, List.not_mem_nil] at hi ⊢
  tauto

theorem clearSlot (h : Timed sent next due t) (event : TimerEvent) :
    Timed sent next due (t.clearSlot event) := by
  cases event with
  | retransmit n g => exact h
  | _ =>
      refine h.unslot rfl fun i hi => ?_
      simp only [TimerState.clearSlot, TimerState.slots, List.mem_cons, List.not_mem_nil] at hi ⊢
      tauto

/-- A packet is taken off with its timer. -/
theorem remove {n : Nat} {p : SentPacket} (h : Timed sent next [] t) (hp : sent n = some p) :
    Timed (Function.update sent n none) next [] (t.cancel p.timerId) := by
  have ht := cancel_rewheeled h.sound p.timerId
  have hown : t.live p.timerId = some (.retransmit n p.generation) :=
    (h.packets n p hp).2.resolve_right List.not_mem_nil
  refine ⟨ht.sound, fun id hid => ?_, fun m q hq => ?_, fun id m g hg => ?_, nofun⟩
  · obtain ⟨hlt, hnot⟩ := h.slots id hid
    rw [ht.nextId, ht.live]
    refine ⟨hlt, fun m g hg => ?_⟩
    by_cases hid : id = p.timerId
    · rw [hid, Function.update_self] at hg
      cases hg
    · rw [Function.update_of_ne hid] at hg
      exact hnot m g hg
  · by_cases hm : m = n
    · rw [hm, Function.update_self] at hq
      cases hq
    · rw [Function.update_of_ne hm] at hq
      obtain ⟨hlt, hlive⟩ := h.packets m q hq
      have hlive := hlive.resolve_right List.not_mem_nil
      have hid : q.timerId ≠ p.timerId := fun heq => by
        rw [heq, hown, Option.some_inj, TimerEvent.retransmit.injEq] at hlive
        exact hm hlive.1.symm
      rw [ht.live, Function.update_of_ne hid]
      exact ⟨hlt, .inl hlive⟩
  · rw [ht.live] at hg
    by_cases hid : id = p.timerId
    · rw [hid, Function.update_self] at hg
      cases hg
    · rw [Function.update_of_ne hid] at hg
      obtain ⟨⟨q, hq, hqid, hqg⟩, _⟩ := h.owners id m g hg
      have hm : m ≠ n := fun heq => by
        rw [heq, hp] at hq
        cases hq
        exact hid hqid.symm
      rw [Function.update_of_ne hm]
      exact ⟨⟨q, hq, hqid, hqg⟩, fun _ => List.not_mem_nil⟩

/-- A packet goes out under a new number with a timer of its own. -/
theorem track {p : SentPacket} (h : Timed sent next due t)
    (ht : Rewheeled t (Function.update t.live t.nextId (some (.retransmit next p.generation)))
      (t.nextId + 1) t') (hid : p.timerId = t.nextId) :
    Timed (Function.update sent next (some p)) (next + 1) due t' := by
  have hfresh : ∀ id, t.live id ≠ none → id ≠ t.nextId := fun id hlive heq =>
    hlive (heq ▸ TimerState.live_of_nextId_le (Nat.le_refl _))
  refine ⟨ht.sound, fun id hslot => ?_, fun m q hq => ?_, fun id m g hg => ?_, fun m g hg =>
    Nat.lt_succ_of_lt (h.early m g hg)⟩
  · rw [ht.slots] at hslot
    obtain ⟨hlt, hnot⟩ := h.slots id hslot
    rw [ht.nextId, ht.live, Function.update_of_ne hlt.ne]
    exact ⟨Nat.lt_succ_of_lt hlt, hnot⟩
  · rw [ht.live]
    by_cases hm : m = next
    · rw [hm, Function.update_self] at hq
      cases hq
      rw [hid, Function.update_self, hm]
      exact ⟨Nat.lt_succ_self _, .inl rfl⟩
    · rw [Function.update_of_ne hm] at hq
      obtain ⟨hlt, hlive⟩ := h.packets m q hq
      refine ⟨Nat.lt_succ_of_lt hlt, hlive.imp_left fun hlive => ?_⟩
      rw [Function.update_of_ne (hfresh _ (hlive ▸ Option.some_ne_none _))]
      exact hlive
  · rw [ht.live] at hg
    by_cases hi : id = t.nextId
    · rw [hi, Function.update_self] at hg
      cases hg
      rw [Function.update_self]
      exact ⟨⟨p, rfl, hid.trans hi.symm, rfl⟩, fun g' hg' => Nat.lt_irrefl _ (h.early _ g' hg')⟩
    · rw [Function.update_of_ne hi] at hg
      obtain ⟨⟨q, hq, hqid, hqg⟩, hnot⟩ := h.owners id m g hg
      have hm : m ≠ next := fun heq => Nat.lt_irrefl _ (heq ▸ (h.packets m q hq).1)
      rw [Function.update_of_ne hm]
      exact ⟨⟨q, hq, hqid, hqg⟩, hnot⟩

/-- An event that takes no packet off is done with. -/
theorem pass (h : Timed sent next (event :: rest) t)
    (hevent : ∀ n p, sent n = some p → event ≠ .retransmit n p.generation) :
    Timed sent next rest t := by
  refine ⟨h.sound, h.slots, fun n p hp => ?_, fun id n g hg => ?_, fun n g hg =>
    h.early n g (List.mem_cons_of_mem _ hg)⟩
  · obtain ⟨hlt, hlive⟩ := h.packets n p hp
    refine ⟨hlt, hlive.imp_right fun hmem => ?_⟩
    exact (List.mem_cons.1 hmem).resolve_left fun heq => hevent n p hp heq.symm
  · obtain ⟨hp, hnot⟩ := h.owners id n g hg
    exact ⟨hp, fun g' hg' => hnot g' (List.mem_cons_of_mem _ hg')⟩

/-- A packet is given up when its event is handled. -/
theorem giveUp {n g : Nat} (h : Timed sent next (.retransmit n g :: rest) t) :
    Timed (Function.update sent n none) next rest t := by
  refine ⟨h.sound, h.slots, fun m p hp => ?_, fun id m g' hg => ?_, fun m g' hg =>
    h.early m g' (List.mem_cons_of_mem _ hg)⟩
  · by_cases hm : m = n
    · rw [hm, Function.update_self] at hp
      cases hp
    · rw [Function.update_of_ne hm] at hp
      obtain ⟨hlt, hlive⟩ := h.packets m p hp
      refine ⟨hlt, hlive.imp_right fun hmem => (List.mem_cons.1 hmem).resolve_left fun heq => ?_⟩
      cases heq
      exact hm rfl
  · obtain ⟨hp, hnot⟩ := h.owners id m g' hg
    have hm : m ≠ n := fun heq => hnot g (heq ▸ List.mem_cons_self)
    rw [Function.update_of_ne hm]
    exact ⟨hp, fun g'' hg'' => hnot g'' (List.mem_cons_of_mem _ hg'')⟩

/-- The events an advance hands out are due. -/
theorem advance (h : Timed sent next [] t) (elapsed : Nat) :
    Ends (advance elapsed) t (fun events t' => Timed sent next events t') fun _ _ => True := by
  refine (advance_ends h.sound elapsed).mono (fun events t' ht => ?_) fun _ _ _ => trivial
  obtain ⟨ids, _, hevents, ht⟩ := ht
  have hmem : ∀ event, event ∈ events ↔ ∃ id ∈ ids, t.live id = some event := fun event => by
    rw [← List.mem_map_of_injective (Option.some_injective _), hevents, List.mem_map]
  refine ⟨ht.sound, fun id hid => ?_, fun n p hp => ?_, fun id n g hg => ?_, fun n g hg => ?_⟩
  · rw [ht.slots] at hid
    obtain ⟨hlt, hnot⟩ := h.slots id hid
    rw [ht.nextId, ht.live]
    refine ⟨hlt, fun n g hg => ?_⟩
    dsimp only at hg
    split at hg
    · cases hg
    · exact hnot n g hg
  · obtain ⟨hlt, hlive⟩ := h.packets n p hp
    have hlive := hlive.resolve_right List.not_mem_nil
    refine ⟨hlt, ?_⟩
    rw [ht.live, hmem]
    by_cases hid : p.timerId ∈ ids
    · exact .inr ⟨p.timerId, hid, hlive⟩
    · exact .inl ((if_neg hid).trans hlive)
  · rw [ht.live] at hg
    dsimp only at hg
    split at hg
    · cases hg
    · next hout =>
        obtain ⟨hp, _⟩ := h.owners id n g hg
        refine ⟨hp, fun g' hg' => ?_⟩
        obtain ⟨p, hp, hpid, _⟩ := hp
        obtain ⟨id', hid', hlive'⟩ := (hmem _).1 hg'
        obtain ⟨⟨q, hq, hqid, _⟩, _⟩ := h.owners id' n g' hlive'
        cases hp.symm.trans hq
        exact hout (hpid ▸ hqid ▸ hid')
  · obtain ⟨id, _, hlive⟩ := (hmem _).1 hg
    obtain ⟨⟨p, hp, _⟩, _⟩ := h.owners id n g hlive
    exact (h.packets n p hp).1

end Timed

/-! ## The events that may be pending

Whichever way a call ends: what is pending afterwards was pending before, or is
the event that was scheduled. -/

/-- The events pending in `t'` are pending in `t` or are among `P`. -/
def Adds (P : TimerEvent → Prop) (t t' : TimerState) : Prop :=
  t.Sound → t'.Sound ∧ ∀ id e, t'.live id = some e → P e ∨ t.live id = some e

namespace Adds

variable {P : TimerEvent → Prop} {event : TimerEvent}

instance : IsPreorder TimerState (Adds P) where
  refl _ := fun h => ⟨h, fun _ _ => .inr⟩
  trans _ _ _ h h' := fun hs =>
    have ⟨hs', hadds⟩ := h hs
    have ⟨hs'', hadds'⟩ := h' hs'
    ⟨hs'', fun id e he => (hadds' id e he).elim .inl (hadds id e)⟩

theorem of_wheel (hwheel : t'.wheel = t.wheel) : Adds P t t' := by
  intro h
  unfold TimerState.Sound TimerState.live
  rw [hwheel]
  exact ⟨h, fun _ _ => .inr⟩

theorem slot {t'' : TimerState} (h : Adds P t t') (hwheel : t''.wheel = t'.wheel) : Adds P t t'' :=
  IsTrans.trans t t' t'' h (of_wheel hwheel)

theorem schedule (hP : P event) (delay : Nat) : Within (Adds P) (schedule event delay) t := by
  unfold Within
  by_cases hsound : t.Sound
  · have hok := schedule_ends hsound event delay
    obtain ⟨base, m, hm⟩ := hsound
    obtain ⟨m', hallows, hm'⟩ := step_insert hm event delay
    unfold Ends Core.schedule onWheel at hok ⊢
    simp only [Wheel.step] at hallows hm'
    cases hrun : insert event delay t.wheel with
    | ok id w =>
        rw [hrun] at hok
        refine fun _ => ⟨hok.2.sound, fun i e he => ?_⟩
        rw [hok.2.live] at he
        by_cases hi : i = t.nextId
        · rw [hi, Function.update_self] at he
          cases he
          exact .inl hP
        · rw [Function.update_of_ne hi] at he
          exact .inr he
    | error e w =>
        rw [hrun] at hallows hm'
        obtain ⟨_, _, rfl⟩ := hallows
        refine fun _ => ⟨⟨base, m', hm'⟩, fun i e he => .inr ?_⟩
        rw [live_eq_timers hm]
        exact (live_eq_timers (t := { t with wheel := w }) hm' i).symm.trans he
  · exact .of_forall (fun _ _ h => absurd h hsound) fun _ _ h => absurd h hsound

theorem cancel (timer : Nat) : Adds P t (t.cancel timer) := by
  intro h
  have hcancel := cancel_rewheeled h timer
  refine ⟨hcancel.sound, fun i e he => .inr ?_⟩
  rw [hcancel.live] at he
  by_cases hi : i = timer
  · rw [hi, Function.update_self] at he
    cases he
  · rwa [Function.update_of_ne hi] at he

theorem cancelIn (slot : Option Nat) : Adds P t (t.cancelIn slot) := by
  cases slot with
  | some timer => exact cancel timer
  | none => exact of_wheel rfl

theorem cancelAck : Adds P t t.cancelAck := (cancelIn t.ack).slot rfl

theorem cancelHandshake : Adds P t t.cancelHandshake := (cancelIn t.handshake).slot rfl

theorem clearSlot (event : TimerEvent) : Adds P t (t.clearSlot event) := by
  cases event <;> exact of_wheel rfl

theorem scheduleHandshake (hP : P .handshakeTimeout) (delay : Nat) :
    Within (Adds P) (scheduleHandshake delay) t :=
  (schedule hP delay).bind fun _ _ => of_wheel rfl

theorem scheduleKeepalive (hP : P .keepalive) (delay : Nat) :
    Within (Adds P) (scheduleKeepalive delay) t :=
  (schedule hP delay).bind fun _ _ => of_wheel rfl

theorem scheduleClose (hP : P .closeTimeout) (delay : Nat) :
    Within (Adds P) (scheduleClose delay) t :=
  (schedule hP delay).bind fun _ _ => of_wheel rfl

theorem scheduleIdle (hP : P .idleTimeout) (delay : Nat) :
    Within (Adds P) (scheduleIdle delay) t :=
  Within.bind (Within.modify ((cancelIn t.idle).slot rfl)) fun _ _ =>
    (schedule hP delay).bind fun _ _ => of_wheel rfl

theorem scheduleAckTimer (hP : P .ackDelay) (delay : Nat) :
    Within (Adds P) (scheduleAckTimer delay) t := by
  rw [Core.scheduleAckTimer, Within, ends_bind, ends_get, ends_ite]
  exact ⟨fun _ => (schedule hP delay).bind fun _ _ => of_wheel rfl, fun _ => of_wheel rfl⟩

theorem advance (elapsed : Nat) : Within (Adds P) (advance elapsed) t := by
  unfold Within
  by_cases hsound : t.Sound
  · have hok := advance_ends hsound elapsed
    obtain ⟨base, m, hm⟩ := hsound
    obtain ⟨m', hallows, hm'⟩ := step_advanceBy hm elapsed
    simp only [Wheel.step] at hallows hm'
    simp only [Core.advance, ends_bind, ends_pure] at hok ⊢
    unfold Ends onWheel at hok ⊢
    cases hrun : advanceBy elapsed [] t.wheel with
    | ok r w =>
        rw [hrun] at hok
        obtain ⟨ids, _, _, hleft⟩ := hok
        refine fun _ => ⟨hleft.sound, fun i e he => .inr ?_⟩
        rw [hleft.live] at he
        dsimp only at he
        split at he
        · cases he
        · exact he
    | error e w =>
        rw [hrun] at hallows hm'
        obtain ⟨rfl, _⟩ := hallows
        refine fun _ => ⟨⟨base, m', hm'⟩, fun i e he => .inr ?_⟩
        rw [live_eq_timers hm]
        exact (live_eq_timers (t := { t with wheel := w }) hm' i).symm.trans he
  · exact .of_forall (fun _ _ h => absurd h hsound) fun _ _ h => absurd h hsound

end Adds

/-- `cancel_all` leaves nothing pending. -/
theorem TimerState.cancelAll_live (t : TimerState) (id : Nat) : t.cancelAll.live id = none := by
  have hclear : ∀ w : Wheel TimerEvent, (w.clear.2.tasks.get? id).map (·.item) = none := fun w => by
    rw [show w.clear.2.tasks.get? id = none from w.tasks.get?_clear id]
    rfl
  exact hclear _

theorem TimerState.cancelAll_sound (h : t.Sound) : t.cancelAll.Sound := by
  have hcancelled : ∀ (slot : Option Nat) {u : TimerState}, u.Sound → (u.cancelIn slot).Sound :=
    fun slot _ hu => (Adds.cancelIn (P := fun _ => True) slot hu).1
  obtain ⟨base, m, hm⟩ := hcancelled t.close (hcancelled t.idle (hcancelled t.keepalive
    (hcancelled t.ack (hcancelled t.handshake h))))
  obtain ⟨m', _, hm'⟩ := step_clear hm
  exact ⟨base, m', hm'⟩

theorem Adds.cancelAll {P : TimerEvent → Prop} : Adds P t t.cancelAll := fun h =>
  ⟨TimerState.cancelAll_sound h, fun id event hlive => by
    rw [t.cancelAll_live id] at hlive
    cases hlive⟩

end DartUdp.Core
