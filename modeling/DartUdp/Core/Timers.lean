import DartUdp.Core.Config

/-!
# The timers of a connection

The timing wheel, and the ids of the timers a connection has at most one of.
-/

namespace DartUdp.Core

open DartUdp.Lib DartUdp.TimeWheel

structure TimerState where
  wheel : Wheel TimerEvent
  handshake : Option Nat := none
  ack : Option Nat := none
  keepalive : Option Nat := none
  idle : Option Nat := none
  close : Option Nat := none

abbrev TimerM := EStateM CoreError TimerState

/-- A call of the wheel, its error as `CoreError::Timer`. -/
def onWheel {α : Type} (m : WheelM TimerEvent α) : TimerM α := fun t =>
  match m t.wheel with
  | .ok a w => .ok a { t with wheel := w }
  | .error e w => .error (.timer e) { t with wheel := w }

namespace TimerState

/-- `TimerState::new`. -/
def new (config : ConnectionConfig) (order : KeyOrder) : Except CoreError TimerState :=
  match config.wheelConfig with
  | .ok built => .ok { wheel := Wheel.new built order }
  | .error error => .error (.invalidConfig error)

/-- `TimerState::next_deadline`. -/
def nextDeadline (t : TimerState) : Except CoreError (Option Nat) :=
  match t.wheel.nextDeadline with
  | .ok deadline => .ok deadline
  | .error error => .error (.timer error)

/-- `TimerState::cancel`: what the wheel answers is dropped. -/
def cancel (t : TimerState) (timer : Nat) : TimerState :=
  { t with wheel := after (TimeWheel.cancel timer) t.wheel }

/-- The wheel after `cancel_slot`. -/
def cancelIn (t : TimerState) (slot : Option Nat) : TimerState :=
  match slot with
  | some timer => t.cancel timer
  | none => t

/-- `TimerState::clear_slot`. -/
def clearSlot (t : TimerState) : TimerEvent → TimerState
  | .handshakeTimeout => { t with handshake := none }
  | .ackDelay => { t with ack := none }
  | .keepalive => { t with keepalive := none }
  | .idleTimeout => { t with idle := none }
  | .closeTimeout => { t with close := none }
  | .retransmit _ _ => t

/-- `TimerState::cancel_ack`. -/
def cancelAck (t : TimerState) : TimerState := { t.cancelIn t.ack with ack := none }

/-- `TimerState::cancel_handshake`. -/
def cancelHandshake (t : TimerState) : TimerState :=
  { t.cancelIn t.handshake with handshake := none }

/-- `TimerState::cancel_all`. -/
def cancelAll (t : TimerState) : TimerState :=
  let t := ((((t.cancelIn t.handshake).cancelIn t.ack).cancelIn t.keepalive).cancelIn
    t.idle).cancelIn t.close
  { wheel := t.wheel.clear.2 }

end TimerState

/-- `TimerState::advance`. -/
def advance (elapsed : Nat) : TimerM (List TimerEvent) := do
  let (_, expired) ← onWheel (advanceBy elapsed [])
  return expired.map (·.item)

/-- `TimerState::schedule`. -/
def schedule (event : TimerEvent) (delay : Nat) : TimerM Nat := onWheel (insert event delay)

/-- `TimerState::schedule_handshake`. -/
def scheduleHandshake (delay : Nat) : TimerM Unit := do
  let timer ← schedule .handshakeTimeout delay
  modify fun t => { t with handshake := some timer }

/-- `TimerState::schedule_ack`. -/
def scheduleAckTimer (delay : Nat) : TimerM Unit := do
  if (← get).ack.isNone then
    let timer ← schedule .ackDelay delay
    modify fun t => { t with ack := some timer }

/-- `TimerState::schedule_keepalive`. -/
def scheduleKeepalive (delay : Nat) : TimerM Unit := do
  let timer ← schedule .keepalive delay
  modify fun t => { t with keepalive := some timer }

/-- `TimerState::schedule_idle`. -/
def scheduleIdle (delay : Nat) : TimerM Unit := do
  modify fun t => { t.cancelIn t.idle with idle := none }
  let timer ← schedule .idleTimeout delay
  modify fun t => { t with idle := some timer }

/-- `TimerState::schedule_close`. -/
def scheduleClose (delay : Nat) : TimerM Unit := do
  let timer ← schedule .closeTimeout delay
  modify fun t => { t with close := some timer }

end DartUdp.Core
