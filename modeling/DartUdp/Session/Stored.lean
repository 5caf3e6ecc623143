import DartUdp.Session.Run

/-!
# A session and its storage

The trait `Storage` as a value, and the methods that take one, so that a session
and the storage it is driven with go on together. A call that fails keeps what
either of them had done.
-/

namespace DartUdp.Session

open DartUdp.Lib DartUdp.Transfer

/-- The trait `Storage` over a storage state. -/
structure Storage (σ : Type) where
  durableState : TransferId → FileId → σ → Except CoreError DurableState
  writeData : TransferId → FileId → Nat → Bytes → σ → Except CoreError Unit × σ
  checkpoint : TransferId → FileId → DurableState → σ → Except CoreError Unit × σ
  completeFile : TransferId → FileId → Nat → Digest → σ → Except CoreError Unit × σ

namespace Stored

variable {σ α : Type}

abbrev StoredM (σ : Type) := EStateM CoreError (TransferSession × σ)

/-- A method that does not touch the storage. -/
def onSession (m : SessionM α) : StoredM σ α := zoom Prod.fst (fun s p => (s, p.2)) m

/-- A call of the storage. -/
def onStorage (call : σ → Except CoreError α × σ) : StoredM σ α := fun p =>
  match call p.2 with
  | (.ok a, store) => .ok a (p.1, store)
  | (.error e, store) => .error e (p.1, store)

/-- The bytes of the first `DataReceived`. -/
def dataOf (events : List SessionEvent) : Option Bytes :=
  events.findSome? fun
    | .dataReceived _ _ bytes _ => some bytes
    | _ => none

def handleDataWithStorage (storage : Storage σ) (chunk : DataChunk) :
    StoredM σ (List SessionEvent) := do
  let f ← onSession (file chunk.fileId)
  let absoluteOffset := saturatingAdd f.baseOffset chunk.offset
  let events ← onSession (handleData chunk)
  match dataOf events with
  | none => return events
  | some bytes =>
      let (s, _) ← get
      tryCatch
        (do
          onStorage (storage.writeData s.transferId chunk.fileId absoluteOffset bytes)
          return events)
        fun e => do
          onSession (modify fun s => { s with state := .failed })
          throw e

def respondToResumeQueryWithStorage (storage : Storage σ) (fileId : FileId)
    (contentHash : Digest) (size : Nat) : StoredM σ (List SessionEvent) := do
  let (s, _) ← get
  let state ← onStorage fun store => (storage.durableState s.transferId fileId store, store)
  onSession (setDurableState fileId state)
  onSession (handleResumeQuery fileId contentHash size)

def checkpointWithStorage (storage : Storage σ) (fileId : FileId)
    (durableOffset checkpointId : Nat) (stateHash : Digest) :
    StoredM σ (List SessionEvent) := do
  onSession (validateCheckpoint fileId durableOffset checkpointId)
  let (s, _) ← get
  onStorage (storage.checkpoint s.transferId fileId ⟨durableOffset, checkpointId, stateHash⟩)
  let f ← onSession (file fileId)
  onSession (setFile fileId { f with stateHash })
  onSession (checkpoint fileId durableOffset checkpointId)

/-- `validate_file_completion`. -/
def validateFileCompletion (fileId : FileId) (finalSize : Nat) (contentHash : Digest) :
    SessionM Unit := do
  let f ← file fileId
  if !f.complete then checkCompletion f fileId finalSize contentHash

def completeFileWithStorage (storage : Storage σ) (fileId : FileId) (finalSize : Nat)
    (contentHash : Digest) : StoredM σ (List SessionEvent) := do
  onSession (validateFileCompletion fileId finalSize contentHash)
  let (s, _) ← get
  onStorage (storage.completeFile s.transferId fileId finalSize contentHash)
  onSession (completeFile fileId finalSize contentHash)

/-! ## Runs -/

/-- The calls without a storage that do not move what is durable. -/
def Plain : Op → Bool
  | .checkpoint .. | .setDurableState .. | .handleDataWithStorage .. | .checkpointWithStorage ..
  | .respondToResumeQueryWithStorage .. | .completeFileWithStorage .. => false
  | _ => true

/-- What is done to a session that is driven with a storage. -/
inductive StoredOp where
  | call (op : Op) (h : Plain op = true)
  | handleData (chunk : DataChunk)
  | checkpoint (fileId : FileId) (durableOffset checkpointId : Nat) (stateHash : Digest)
  | respondToResumeQuery (fileId : FileId) (contentHash : Digest) (size : Nat)
  | completeFile (fileId : FileId) (finalSize : Nat) (contentHash : Digest)

def drive (storage : Storage σ) : StoredOp → StoredM σ (List SessionEvent)
  | .call op _ => onSession (perform op)
  | .handleData chunk => handleDataWithStorage storage chunk
  | .checkpoint fileId durableOffset checkpointId stateHash =>
      checkpointWithStorage storage fileId durableOffset checkpointId stateHash
  | .respondToResumeQuery fileId contentHash size =>
      respondToResumeQueryWithStorage storage fileId contentHash size
  | .completeFile fileId finalSize contentHash =>
      completeFileWithStorage storage fileId finalSize contentHash

/-- The session and the storage after a run. -/
def driven (storage : Storage σ) (p : TransferSession × σ) (ops : List StoredOp) :
    TransferSession × σ :=
  ops.foldl (fun p op => after (drive storage op) p) p

end Stored

end DartUdp.Session
