import DartUdp.Lib.Runs
import DartUdp.Session.Session

/-!
# Runs of a session

Everything that can be done to a session from outside: the messages and data of
the peer, the calls of the application, and what the traits it is given answer.
A run is a list of these; its history keeps every step with what it answered.
-/

namespace DartUdp.Session

open DartUdp.Lib DartUdp.Transfer

inductive Op where
  | start
  | acceptOffer (decision : AcceptDecision) (policy : OverwritePolicy) (label : Bytes)
  | rejectOffer (reasonCode : Nat)
  | handleControl (message : TransferControl)
  | handleControlWithFlags (message : TransferControl) (errorFlag : Bool)
  | handlePairing (message : PairingControl)
  | handleData (chunk : DataChunk)
  | handleDataWithStorage (chunk : DataChunk) (written : Except CoreError Unit)
  | queueData (fileId : FileId) (bytes : Bytes) (fin : Bool)
  | checkpoint (fileId : FileId) (durableOffset checkpointId : Nat)
  | checkpointWithStorage (fileId : FileId) (durableOffset checkpointId : Nat)
      (stateHash : Digest) (stored : Except CoreError Unit)
  | completeFile (fileId : FileId) (finalSize : Nat) (contentHash : Digest)
  | completeFileWithStorage (fileId : FileId) (finalSize : Nat) (contentHash : Digest)
      (stored : Except CoreError Unit)
  | setDurableState (fileId : FileId) (state : DurableState)
  | respondToResumeQueryWithStorage (fileId : FileId) (contentHash : Digest) (size : Nat)
      (stored : Except CoreError DurableState)
  | reconnect
  | selectPath (selected : Except CoreError PathSelection)
  | fallbackToRelay (relay : Except CoreError (RelayId × Bytes))
  | markPathFailed
  | touch (nowMillis : Nat)
  | flush (control data : Nat → Option Bytes)
  | drainControl
  | drainData
  | resetForTest
  | send (message : PairingControl)
  | sendFileRejection (fileId : FileId) (reason : FileRejectReason)
  | sendCancel (reasonCode : Nat)

/-- `send` is `send_path_check_authorization` and `send_candidate_list`, which
only queue their message. -/
def perform : Op → SessionM (List SessionEvent)
  | .start => start
  | .acceptOffer decision policy label => acceptOffer decision policy label
  | .rejectOffer reasonCode => rejectOffer reasonCode
  | .handleControl message => handleControl message
  | .handleControlWithFlags message errorFlag => handleControlWithFlags message errorFlag
  | .handlePairing message => handlePairing message
  | .handleData chunk => handleData chunk
  | .handleDataWithStorage chunk written => handleDataWithStorage chunk written
  | .queueData fileId bytes fin => do
      let _ ← queueData fileId bytes fin
      return []
  | .checkpoint fileId durableOffset checkpointId => checkpoint fileId durableOffset checkpointId
  | .checkpointWithStorage fileId durableOffset checkpointId stateHash stored =>
      checkpointWithStorage fileId durableOffset checkpointId stateHash stored
  | .completeFile fileId finalSize contentHash => completeFile fileId finalSize contentHash
  | .completeFileWithStorage fileId finalSize contentHash stored =>
      completeFileWithStorage fileId finalSize contentHash stored
  | .setDurableState fileId state => do
      setDurableState fileId state
      return []
  | .respondToResumeQueryWithStorage fileId contentHash size stored =>
      respondToResumeQueryWithStorage fileId contentHash size stored
  | .reconnect => reconnect
  | .selectPath selected => selectPath selected
  | .fallbackToRelay relay => fallbackToRelay relay
  | .markPathFailed => markPathFailed
  | .touch nowMillis => do
      touch nowMillis
      return []
  | .flush control data => do
      flush control data
      return []
  | .drainControl => do
      let _ ← drainControl
      return []
  | .drainData => do
      let _ ← drainData
      return []
  | .resetForTest => do
      resetForTest
      return []
  | .send message => do
      queuePairing message
      return []
  | .sendFileRejection fileId reason => do
      queueTransfer (.fileRejected fileId reason)
      return []
  | .sendCancel reasonCode => do
      sendCancel reasonCode
      return []

/-- One step of a run: the session before it, the call, and its events if it
answered `Ok`. -/
structure Taken where
  before : TransferSession
  op : Op
  answer : Option (List SessionEvent)
  after : TransferSession

def take (s : TransferSession) (op : Op) : Taken :=
  ⟨s, op, answer (perform op) s, after (perform op) s⟩

/-- The steps of a run. -/
def history : TransferSession → List Op → List Taken
  | _, [] => []
  | s, op :: ops => take s op :: history (take s op).after ops

/-- The session after a run. -/
def final (s : TransferSession) (ops : List Op) : TransferSession :=
  ops.foldl (fun s op => (take s op).after) s

theorem history_append (s : TransferSession) (ops ops' : List Op) :
    history s (ops ++ ops') = history s ops ++ history (final s ops) ops' := by
  induction ops generalizing s with
  | nil => rfl
  | cons op ops ih => exact congrArg (take s op :: ·) (ih (take s op).after)

theorem final_append (s : TransferSession) (ops ops' : List Op) :
    final s (ops ++ ops') = final (final s ops) ops' := List.foldl_append

/-- What every call keeps, whether it answers or fails, a run keeps. -/
theorem final_keeps {I : TransferSession → Prop} {s : TransferSession} (ops : List Op) (h : I s)
    (hstep : ∀ s op, I s → I (take s op).after) : I (final s ops) := run_keeps ops h hstep

theorem op_mem_of_mem_history {s : TransferSession} {ops : List Op} {t : Taken}
    (h : t ∈ history s ops) : t.op ∈ ops := by
  induction ops generalizing s with
  | nil => simp [history] at h
  | cons op ops ih =>
      rcases List.mem_cons.1 h with rfl | h
      · exact List.mem_cons_self
      · exact List.mem_cons_of_mem _ (ih h)

/-- A step of a run is taken after the calls before it. -/
theorem history_split {s : TransferSession} {ops : List Op} {earlier later : List Taken}
    {t : Taken} (h : history s ops = earlier ++ t :: later) :
    ∃ ops₁ op ops₂, ops = ops₁ ++ op :: ops₂ ∧ earlier = history s ops₁ ∧
      t = take (final s ops₁) op := by
  induction ops generalizing s earlier with
  | nil => simp [history] at h
  | cons op ops ih =>
      cases earlier with
      | nil =>
          obtain ⟨rfl, _⟩ := List.cons.inj h
          exact ⟨[], op, ops, rfl, rfl, rfl⟩
      | cons t' earlier =>
          obtain ⟨rfl, hrest⟩ := List.cons.inj h
          obtain ⟨ops₁, op', ops₂, rfl, rfl, rfl⟩ := ih hrest
          exact ⟨op :: ops₁, op', ops₂, rfl, rfl, rfl⟩

end DartUdp.Session
