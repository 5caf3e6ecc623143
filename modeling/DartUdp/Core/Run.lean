import DartUdp.Core.Connection
import DartUdp.Lib.Runs

/-!
# Runs of a connection

Everything that can be done to a connection from outside. A run is a list of
these; an operation that fails leaves what it wrote and the run goes on.
-/

namespace DartUdp.Core

open DartUdp.Lib DartUdp.Udp

inductive Op where
  | onDatagram (packet : Packet)
  | onDatagramBytes (bytes : Bytes)
  | advanceTime (elapsed : Nat)
  | openStream
  | writeStream (streamId : Nat) (data : Bytes) (fin : Bool)
  | readStream (streamId maxLen : Nat)
  | close (errorCode : Nat) (reason : Bytes)
  | drainOutput
deriving DecidableEq

inductive Reply where
  | done
  | opened (streamId : Nat)
  | written (count : Nat)
  | read (result : ReadResult)
  | drained (outputs : List CoreOutput)
deriving DecidableEq

variable (suite : Suite)

def perform : Op → ConnM Reply
  | .onDatagram packet => do
      onDatagram suite packet
      return .done
  | .onDatagramBytes bytes => do
      onDatagramBytes suite bytes
      return .done
  | .advanceTime elapsed => do
      advanceTime elapsed
      return .done
  | .openStream => .opened <$> openStream
  | .writeStream streamId data fin => .written <$> writeStream streamId data fin
  | .readStream streamId maxLen => .read <$> readStream streamId maxLen
  | .close errorCode reason => do
      close errorCode reason
      return .done
  | .drainOutput => .drained <$> drainOutput

/-- The connection after a run. -/
def final (c : Connection) (ops : List Op) : Connection :=
  ops.foldl (fun c op => after (perform suite op) c) c

theorem final_cons (c : Connection) (op : Op) (ops : List Op) :
    final suite c (op :: ops) = final suite (after (perform suite op) c) ops := rfl

theorem final_append (c : Connection) (ops ops' : List Op) :
    final suite c (ops ++ ops') = final suite (final suite c ops) ops' := List.foldl_append

/-- What every operation keeps, whether it answers or fails, a run keeps. -/
theorem final_keeps {I : Connection → Prop} {c : Connection} (ops : List Op) (h : I c)
    (hstep : ∀ c op, I c → I (after (perform suite op) c)) : I (final suite c ops) :=
  run_keeps ops h hstep

/-- Every operation of the run answers. -/
def succeeds (c : Connection) : List Op → Bool
  | [] => true
  | op :: ops =>
      (answer (perform suite op) c).isSome && succeeds (after (perform suite op) c) ops

/-- What an operation hands out of the output queue. -/
def drained (op : Op) (c : Connection) : List CoreOutput :=
  match answer (perform suite op) c with
  | some (.drained outputs) => outputs
  | _ => []

/-- Everything a run puts in the output queue, in order: what is drained on the
way and what is left at the end. -/
def outputs (c : Connection) : List Op → List CoreOutput
  | [] => c.output
  | op :: ops => drained suite op c ++ outputs (after (perform suite op) c) ops

theorem drained_drainOutput (c : Connection) : drained suite .drainOutput c = c.output := rfl

theorem drained_eq_nil {op : Op} (hop : op ≠ .drainOutput) (c : Connection) :
    drained suite op c = [] := by
  have hreply : Ends (perform suite op) c (fun r _ => ∀ outputs, r ≠ .drained outputs)
      fun _ _ => True := by
    cases op with
    | drainOutput => exact absurd rfl hop
    | openStream => exact ends_map.2 (.of_forall (fun _ _ _ => Reply.noConfusion) fun _ _ =>
        trivial)
    | writeStream id data fin =>
        exact ends_map.2 (.of_forall (fun _ _ _ => Reply.noConfusion) fun _ _ => trivial)
    | readStream id maxLen =>
        exact ends_map.2 (.of_forall (fun _ _ _ => Reply.noConfusion) fun _ _ => trivial)
    | _ => exact ends_bind.2 (.of_forall (fun _ _ _ => Reply.noConfusion) fun _ _ => trivial)
  unfold drained
  split
  · next outputs h => exact absurd rfl (hreply.answer h outputs)
  · rfl

/-- A connection as one of the two constructors makes it. -/
def Fresh (role : ConnectionRole) (config : ConnectionConfig) (c : Connection) : Prop :=
  ∃ id entropy,
    match role with
    | .client => Connection.newClient suite id config entropy = .ok c
    | .server => Connection.newServer suite id config entropy = .ok c

end DartUdp.Core
