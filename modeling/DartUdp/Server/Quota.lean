import Mathlib.Logic.Function.Basic
import DartUdp.Lib.Machine

/-!
# The relay quotas

Every relayed chunk is reserved with `reserve_relay_bytes`, first from the bytes of
its session and then from those of the server. The two are atomic counters that any
number of relays reserve from at the same time, so a call is a small machine that
takes one atomic operation after another, and between any two of them the other
calls go on.
-/

namespace DartUdp.Server

open DartUdp.Lib

structure RelayConfig where
  maxBytesPerSession : UInt64 := 4 * 1024 * 1024 * 1024
  maxBytesTotal : UInt64 := 0

/-- `u64::checked_add`. -/
def checkedSum (a b : UInt64) : Option UInt64 :=
  if a.toNat + b.toNat < 2 ^ 64 then some (a + b) else none

/-! ## `reserve_counter` -/

/-- Where a call of `reserve_counter` is: before its next atomic operation, or at
its end, with the amount reserved or not. -/
inductive Reserving where
  | load
  | exchange (current next : UInt64)
  | done (reserved : Bool)
deriving DecidableEq

/-- The loop, up to the exchange. -/
def Reserving.attempt (amount limit current : UInt64) : Reserving :=
  match checkedSum current amount with
  | none => .done false
  | some next => if next > limit then .done false else .exchange current next

/-- One atomic operation of `reserve_counter`: the counter after it, and where the
call is then. A weak exchange may fail without a reason. -/
def reserveCounter (amount limit : UInt64) (spurious : Bool) (counter : UInt64) :
    Reserving → UInt64 × Reserving
  | .load =>
      if limit = 0 then (counter + amount, .done true)
      else (counter, .attempt amount limit counter)
  | .exchange current next =>
      if counter = current ∧ ¬ spurious then (next, .done true)
      else (counter, .attempt amount limit counter)
  | .done reserved => (counter, .done reserved)

/-! ## `reserve_relay_bytes` -/

/-- The session of a relay. -/
abbrev SessionKey := Nat

/-- Where a call of `reserve_relay_bytes` is. -/
inductive CallStage where
  /-- It reserves from the session. -/
  | session (reserving : Reserving)
  /-- It has reserved from the session, and reserves from the server. -/
  | total (reserving : Reserving)
  /-- The server's quota is exceeded: it gives back what it has from the session. -/
  | release
  /-- It has reserved from both, and counts the bytes for the metrics. -/
  | measure
  /-- It has returned `Ok`. -/
  | granted
  /-- It has returned `Err`. -/
  | refused
deriving DecidableEq

structure Call where
  session : SessionKey
  count : UInt64
  stage : CallStage := .session .load
deriving DecidableEq

/-- The counters of the server and the calls that have begun. -/
structure Quotas where
  config : RelayConfig
  sessionBytes : SessionKey → UInt64 := fun _ => 0
  totalRelayBytes : UInt64 := 0
  relayBytes : UInt64 := 0
  calls : List Call := []

/-- A new call begins, or one takes its next atomic operation. -/
inductive QuotaAction where
  | call (session : SessionKey) (count : UInt64)
  | goOn (call : Nat) (spurious : Bool)

namespace Quotas

/-- Where `reserve_relay_bytes` goes on after `reserve_counter` of the session. -/
def afterSession : Reserving → CallStage
  | .done true => .total .load
  | .done false => .refused
  | reserving => .session reserving

/-- Where it goes on after `reserve_counter` of the server. -/
def afterTotal : Reserving → CallStage
  | .done true => .measure
  | .done false => .release
  | reserving => .total reserving

/-- The next atomic operation of `reserve_relay_bytes`. -/
def reserveRelayBytes (s : Quotas) (spurious : Bool) (call : Call) : Quotas × CallStage :=
  match call.stage with
  | .session reserving =>
      let (counter, reserving) := reserveCounter call.count s.config.maxBytesPerSession spurious
        (s.sessionBytes call.session) reserving
      ({ s with sessionBytes := Function.update s.sessionBytes call.session counter },
        afterSession reserving)
  | .total reserving =>
      let (counter, reserving) := reserveCounter call.count s.config.maxBytesTotal spurious
        s.totalRelayBytes reserving
      ({ s with totalRelayBytes := counter }, afterTotal reserving)
  | .release =>
      ({ s with
        sessionBytes := Function.update s.sessionBytes call.session
          (s.sessionBytes call.session - call.count) }, .refused)
  | .measure => ({ s with relayBytes := s.relayBytes + call.count }, .granted)
  | .granted => (s, .granted)
  | .refused => (s, .refused)

def step (s : Quotas) : QuotaAction → Quotas
  | .call session count => { s with calls := s.calls ++ [{ session, count }] }
  | .goOn i spurious =>
      match s.calls[i]? with
      | none => s
      | some call =>
          let (s', stage) := s.reserveRelayBytes spurious call
          { s' with calls := s.calls.set i { call with stage } }

def run (s : Quotas) (actions : List QuotaAction) : Quotas := actions.foldl step s

end Quotas

end DartUdp.Server
