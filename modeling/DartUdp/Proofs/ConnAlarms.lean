import DartUdp.Lib.Alarms
import DartUdp.Proofs.ConnTimers

/-!
# The timers of a connection as alarms

The wheel and the slots of a connection are a table of alarms with a slot for
each kind of timer there is at most one of, and what the source calls on them
are the operations of the table. A call that fails leaves the table as it was.

There is one lemma for each function of `TimerState` (`schedule_sets`, `stop_stops`,
`cancelAll_clears`, `advance_expires`), and the modules after this one look at the
table only. `takes_iff` says which timers the wheel takes; that does not change
while time stands still (`TimerState.SameTime`).
-/

namespace DartUdp.Core

open DartUdp.Lib DartUdp.TimeWheel

variable {t t' : TimerState}

/-- The timers there is at most one of. -/
inductive TimerKind where
  | handshake
  | ack
  | keepalive
  | idle
  | close
deriving DecidableEq, Repr

def TimerKind.event : TimerKind → TimerEvent
  | .handshake => .handshakeTimeout
  | .ack => .ackDelay
  | .keepalive => .keepalive
  | .idle => .idleTimeout
  | .close => .closeTimeout

theorem TimerKind.event_injective : Function.Injective TimerKind.event := by
  intro k k' h
  cases k <;> cases k' <;> first | rfl | cases h

theorem retransmit_ne_event (n g : Nat) (k : TimerKind) : TimerEvent.retransmit n g ≠ k.event := by
  cases k <;> exact fun h => by cases h

/-- An event has a slot or is a retransmission. -/
theorem TimerEvent.kind_or_retransmit (e : TimerEvent) :
    (∃ k : TimerKind, e = k.event) ∨ ∃ n g, e = .retransmit n g := by
  cases e with
  | handshakeTimeout => exact .inl ⟨.handshake, rfl⟩
  | retransmit n g => exact .inr ⟨n, g, rfl⟩
  | ackDelay => exact .inl ⟨.ack, rfl⟩
  | keepalive => exact .inl ⟨.keepalive, rfl⟩
  | idleTimeout => exact .inl ⟨.idle, rfl⟩
  | closeTimeout => exact .inl ⟨.close, rfl⟩

namespace TimerState

def slot (t : TimerState) : TimerKind → Option Nat
  | .handshake => t.handshake
  | .ack => t.ack
  | .keepalive => t.keepalive
  | .idle => t.idle
  | .close => t.close

def withSlot (t : TimerState) (id : Option Nat) : TimerKind → TimerState
  | .handshake => { t with handshake := id }
  | .ack => { t with ack := id }
  | .keepalive => { t with keepalive := id }
  | .idle => { t with idle := id }
  | .close => { t with close := id }

def alarms (t : TimerState) : Alarms TimerKind TimerEvent := ⟨t.live, t.slot, t.nextId⟩

theorem withSlot_slot (t : TimerState) (id : Option Nat) (k : TimerKind) :
    (t.withSlot id k).slot = Function.update t.slot k id := by
  funext k'
  by_cases hk : k' = k
  · rw [hk, Function.update_self]
    cases k <;> rfl
  · rw [Function.update_of_ne hk]
    cases k <;> cases k' <;> first | rfl | exact absurd rfl hk

theorem withSlot_wheel (t : TimerState) (id : Option Nat) (k : TimerKind) :
    (t.withSlot id k).wheel = t.wheel := by
  cases k <;> rfl

theorem sound_of_wheel (hwheel : t'.wheel = t.wheel) (h : t.Sound) : t'.Sound := by
  unfold Sound
  rwa [hwheel]

theorem alarms_of_wheel (hwheel : t'.wheel = t.wheel) :
    t'.alarms = { t.alarms with slot := t'.slot } := by
  unfold alarms live nextId
  rw [hwheel]

theorem alarms_withSlot (t : TimerState) (id : Option Nat) (k : TimerKind) :
    (t.withSlot id k).alarms = { t.alarms with slot := Function.update t.slot k id } := by
  rw [alarms_of_wheel (t.withSlot_wheel id k), withSlot_slot]

theorem slot_eq_of_slots (h : t'.slots = t.slots) : t'.slot = t.slot := by
  simp only [slots, List.cons.injEq, and_true] at h
  obtain ⟨hhandshake, hack, hkeepalive, hidle, hclose⟩ := h
  funext k
  cases k with
  | handshake => exact hhandshake
  | ack => exact hack
  | keepalive => exact hkeepalive
  | idle => exact hidle
  | close => exact hclose

end TimerState

theorem Rewheeled.alarms {live : Nat → Option TimerEvent} {next : Nat}
    (h : Rewheeled t live next t') :
    t'.alarms = ⟨live, t.slot, next⟩ := by
  unfold TimerState.alarms
  rw [h.live, h.nextId, TimerState.slot_eq_of_slots h.slots]

theorem schedule_adds (h : t.Sound) (event : TimerEvent) (delay : Nat) :
    Ends (schedule event delay) t
      (fun id t' => id = t.nextId ∧ t'.Sound ∧ t'.alarms = t.alarms.add event)
      fun _ t' => t' = t := by
  have hrefused : Ends (schedule event delay) t (fun _ _ => True) fun _ t' => t' = t := by
    obtain ⟨base, m, hm⟩ := h
    unfold Ends schedule onWheel
    cases hrun : insert event delay t.wheel with
    | ok id w => trivial
    | error e w =>
        obtain ⟨rfl, _⟩ := insert_error hm hrun
        rfl
  refine ((schedule_ends h event delay).and hrefused).mono (fun id t' h' => ?_) fun _ _ h' => h'.2
  obtain ⟨⟨hid, hnew⟩, _⟩ := h'
  exact ⟨hid, hnew.sound, hnew.alarms⟩

/-- A timer is set and its id goes into its slot. -/
theorem schedule_sets (h : t.Sound) (k : TimerKind) (delay : Nat) :
    Ends (do
      let timer ← schedule k.event delay
      modify (·.withSlot (some timer) k)) t
      (fun _ t' => t'.Sound ∧ t'.alarms = t.alarms.set k k.event)
      fun _ t' => t' = t := by
  simp only [ends_bind, ends_modify]
  refine (schedule_adds h k.event delay).mono (fun id t' h' => ?_) fun _ _ h' => h'
  obtain ⟨rfl, hsound, halarms⟩ := h'
  refine ⟨TimerState.sound_of_wheel (t'.withSlot_wheel _ k) hsound, ?_⟩
  have hslot : t'.slot = t.slot := congrArg Alarms.slot halarms
  rw [TimerState.alarms_withSlot, halarms, hslot]
  rfl

theorem cancel_drops (h : t.Sound) (timer : Nat) :
    (t.cancel timer).Sound ∧ (t.cancel timer).alarms = t.alarms.drop timer :=
  ⟨(cancel_rewheeled h timer).sound, (cancel_rewheeled h timer).alarms⟩

/-- `cancel_slot` on the slot of a kind. -/
def TimerState.stop (t : TimerState) (k : TimerKind) : TimerState :=
  (t.cancelIn (t.slot k)).withSlot none k

theorem stop_stops (h : t.Sound) (k : TimerKind) :
    (t.stop k).Sound ∧ (t.stop k).alarms = t.alarms.stop k := by
  unfold TimerState.stop
  cases hslot : t.slot k with
  | none =>
      refine ⟨TimerState.sound_of_wheel (t.withSlot_wheel none k) h, ?_⟩
      rw [show t.alarms.stop k = t.alarms from Alarms.stop_of_none hslot]
      show (t.withSlot none k).alarms = _
      rw [TimerState.alarms_withSlot, ← hslot, Function.update_eq_self]
      rfl
  | some timer =>
      obtain ⟨hsound, halarms⟩ := cancel_drops h timer
      refine ⟨TimerState.sound_of_wheel (TimerState.withSlot_wheel _ none k) hsound, ?_⟩
      rw [show t.alarms.stop k = (t.alarms.drop timer).forget k from Alarms.stop_of_some hslot]
      show ((t.cancel timer).withSlot none k).alarms = _
      rw [TimerState.alarms_withSlot, halarms]
      rfl

theorem cancelAll_clears (h : t.Sound) : t.cancelAll.alarms = t.alarms.clear := by
  have hcancelled : ∀ (slot : Option Nat) {u : TimerState}, u.Sound ∧ u.nextId = t.nextId →
      (u.cancelIn slot).Sound ∧ (u.cancelIn slot).nextId = t.nextId := by
    intro slot u hu
    cases slot with
    | none => exact hu
    | some timer =>
        have hrewheeled := cancel_rewheeled hu.1 timer
        exact ⟨hrewheeled.sound, hrewheeled.nextId.trans hu.2⟩
  obtain ⟨⟨base, m, hm⟩, hnext⟩ := hcancelled t.close (hcancelled t.idle (hcancelled t.keepalive
    (hcancelled t.ack (hcancelled t.handshake ⟨h, rfl⟩))))
  obtain ⟨m', hallows, hm'⟩ := step_clear hm
  obtain ⟨_, rfl⟩ := hallows
  have hnext' : t.cancelAll.nextId = t.nextId := (hm'.next.symm.trans hm.next).trans hnext
  have hlive : t.cancelAll.live = fun _ => none := funext t.cancelAll_live
  have hslot : t.cancelAll.slot = fun _ => none := by
    funext k
    cases k <;> rfl
  unfold TimerState.alarms Alarms.clear
  rw [hnext', hlive, hslot]

theorem clearSlot_forgets (t : TimerState) (k : TimerKind) :
    (t.clearSlot k.event).alarms = t.alarms.forget k := by
  have hslot : t.clearSlot k.event = t.withSlot none k := by cases k <;> rfl
  rw [hslot, TimerState.alarms_withSlot]
  rfl

theorem advance_expires (h : t.Sound) (elapsed : Nat) :
    Ends (advance elapsed) t
      (fun events t' => ∃ ids : List Nat, ids.Nodup ∧ events.map some = ids.map t.alarms.live ∧
        t'.Sound ∧ t'.alarms = t.alarms.expire ids)
      fun _ t' => t'.Sound ∧ t'.alarms = t.alarms := by
  have hrefused : Ends (advance elapsed) t (fun _ _ => True)
      fun _ t' => t'.Sound ∧ t'.alarms = t.alarms := by
    obtain ⟨base, m, hm⟩ := h
    obtain ⟨m', hallows, hm'⟩ := step_advanceBy hm elapsed
    simp only [Wheel.step] at hallows hm'
    simp only [advance, ends_bind, ends_pure]
    unfold Ends onWheel
    cases hrun : advanceBy elapsed [] t.wheel with
    | ok r w => trivial
    | error e w =>
        rw [hrun] at hallows hm'
        obtain ⟨rfl, _⟩ := hallows
        refine ⟨⟨base, m', hm'⟩, ?_⟩
        have hlive : ({ t with wheel := w } : TimerState).live = t.live := by
          funext id
          rw [live_eq_timers hm]
          exact live_eq_timers (t := { t with wheel := w }) hm' id
        have hnext : ({ t with wheel := w } : TimerState).nextId = t.nextId :=
          hm'.next.symm.trans hm.next
        unfold TimerState.alarms
        rw [hlive, hnext]
        rfl
  refine ((advance_ends h elapsed).and hrefused).mono (fun events t' h' => ?_) fun _ _ h' => h'.2
  obtain ⟨⟨ids, hnodup, hevents, hleft⟩, _⟩ := h'
  exact ⟨ids, hnodup, hevents, hleft.sound, hleft.alarms⟩

/-! ## How long a timer may be -/

/-- The wheel takes a timer of this length. -/
def TimerState.takes (t : TimerState) (delay : Nat) : Bool :=
  match t.wheel.deadlineAfter delay with
  | .ok _ => true
  | .error _ => false

theorem takes_iff {base : Nat} {m : TimerMap TimerEvent} (h : Shows base t.wheel m) (delay : Nat) :
    t.takes delay = decide (dueTick base m.elapsed delay ≤ u64Max) := by
  unfold TimerState.takes
  rw [h.deadlineAfter_eq]
  by_cases hle : dueTick base m.elapsed delay ≤ u64Max
  · rw [if_pos hle, decide_eq_true hle]
  · rw [if_neg hle, decide_eq_false hle]

/-- A shorter timer is taken where a longer one is. -/
theorem takes_mono (h : t.Sound) {delay delay' : Nat} (hle : delay ≤ delay')
    (htakes : t.takes delay' = true) : t.takes delay = true := by
  obtain ⟨base, m, hm⟩ := h
  rw [takes_iff hm, decide_eq_true_eq] at htakes ⊢
  refine Nat.le_trans ?_ htakes
  unfold dueTick
  have hbase := hm.base_pos
  split
  · split
    · exact Nat.le_refl _
    · exact Nat.div_le_div_right (by omega)
  · rw [if_neg (by omega)]
    exact Nat.div_le_div_right (by omega)

/-- The wheel stands at the same time. -/
def TimerState.SameTime (t t' : TimerState) : Prop :=
  t.Sound → t'.Sound ∧ ∀ delay, t'.takes delay = t.takes delay

namespace TimerState.SameTime

instance : IsPreorder TimerState SameTime where
  refl _ := fun h => ⟨h, fun _ => rfl⟩
  trans _ _ _ h h' := fun hs =>
    have ⟨hs', htakes⟩ := h hs
    have ⟨hs'', htakes'⟩ := h' hs'
    ⟨hs'', fun delay => (htakes' delay).trans (htakes delay)⟩

theorem of_wheel (hwheel : t'.wheel = t.wheel) : SameTime t t' := by
  intro h
  refine ⟨sound_of_wheel hwheel h, fun delay => ?_⟩
  unfold takes
  rw [hwheel]

theorem of_shows {base : Nat} {m m' : TimerMap TimerEvent} (h : Shows base t.wheel m)
    (h' : Shows base t'.wheel m') (helapsed : m'.elapsed = m.elapsed) : SameTime t t' := by
  refine fun _ => ⟨⟨base, m', h'⟩, fun delay => ?_⟩
  rw [takes_iff h, takes_iff h', helapsed]

theorem cancel (t : TimerState) (timer : Nat) : SameTime t (t.cancel timer) := by
  intro hs
  obtain ⟨base, m, hm⟩ := hs
  obtain ⟨m', hallows, hm'⟩ := step_cancel hm timer
  obtain ⟨_, rfl⟩ := hallows
  have hwheel : (Wheel.step t.wheel (.cancel timer)).2 = (t.cancel timer).wheel := by
    show (outcome (TimeWheel.cancel timer t.wheel)).2 = after _ _
    unfold outcome after
    cases TimeWheel.cancel timer t.wheel with
    | ok a w => rfl
    | error e w => rfl
  rw [hwheel] at hm'
  exact of_shows hm hm' rfl ⟨base, m, hm⟩

theorem cancelIn (t : TimerState) (slot : Option Nat) : SameTime t (t.cancelIn slot) := by
  cases slot with
  | none => exact Std.Refl.refl t
  | some timer => exact cancel t timer

theorem cancelAck (t : TimerState) : SameTime t t.cancelAck :=
  IsTrans.trans t _ _ (cancelIn t t.ack) (of_wheel rfl)

theorem clearSlot (t : TimerState) (event : TimerEvent) : SameTime t (t.clearSlot event) :=
  of_wheel (by cases event <;> rfl)

theorem cancelAll (t : TimerState) : SameTime t t.cancelAll := by
  have hcancelled : SameTime t (((((t.cancelIn t.handshake).cancelIn t.ack).cancelIn
      t.keepalive).cancelIn t.idle).cancelIn t.close) :=
    IsTrans.trans t _ _ (cancelIn t _) <| IsTrans.trans _ _ _ (cancelIn _ _) <|
      IsTrans.trans _ _ _ (cancelIn _ _) <| IsTrans.trans _ _ _ (cancelIn _ _) (cancelIn _ _)
  refine IsTrans.trans t _ _ hcancelled fun hs => ?_
  obtain ⟨base, m, hm⟩ := hs
  obtain ⟨m', hallows, hm'⟩ := step_clear hm
  obtain ⟨_, rfl⟩ := hallows
  exact @of_shows _ t.cancelAll _ _ _ hm hm' rfl ⟨base, m, hm⟩

end TimerState.SameTime

/-- A timer is set exactly when the wheel takes it. -/
theorem schedule_takes (h : t.Sound) (event : TimerEvent) (delay : Nat) :
    Ends (schedule event delay) t
      (fun _ t' => t.takes delay = true ∧ t.SameTime t')
      fun _ t' => t.takes delay = false ∧ t' = t := by
  obtain ⟨base, m, hm⟩ := h
  obtain ⟨m', hallows, hm'⟩ := step_insert hm event delay
  unfold Ends schedule onWheel
  simp only [Wheel.step] at hallows hm'
  cases hrun : insert event delay t.wheel with
  | ok id w =>
      rw [hrun] at hallows hm'
      obtain ⟨hle, _, rfl⟩ := hallows
      have hsame : TimerState.SameTime t { t with wheel := w } := .of_shows hm hm' rfl
      refine ⟨?_, hsame⟩
      rw [takes_iff hm]
      exact decide_eq_true hle
  | error e w =>
      rw [hrun] at hallows
      obtain ⟨hlong, _, _⟩ := hallows
      obtain ⟨rfl, _⟩ := insert_error hm hrun
      refine ⟨?_, rfl⟩
      rw [takes_iff hm]
      exact decide_eq_false (Nat.not_le.2 hlong)

/-- So is one that goes into its slot. -/
theorem sets_takes (h : t.Sound) (k : TimerKind) (delay : Nat) :
    Ends (do
      let timer ← schedule k.event delay
      modify (·.withSlot (some timer) k)) t
      (fun _ t' => t.takes delay = true ∧ t.SameTime t')
      fun _ t' => t.takes delay = false ∧ t' = t := by
  simp only [ends_bind, ends_modify]
  refine (schedule_takes h k.event delay).mono (fun id t' h' => ⟨h'.1, ?_⟩) fun _ _ h' => h'
  have hslot : t'.SameTime (t'.withSlot (some id) k) := .of_wheel (t'.withSlot_wheel _ k)
  exact IsTrans.trans t t' _ h'.2 hslot

end DartUdp.Core
