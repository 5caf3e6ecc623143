import DartUdp.Lib.Panic
import DartUdp.Storage.Complete

/-!
# What is written can be read

The methods of the storage that write a record, with an assertion in front of
every call of `write_state`: `read_state_bytes` takes the encoded record, and takes
it for the same record. A program whose assertion does not hold stops there.
Everything else is taken as it is.

A run is any sequence of operations, successful or not, between which anything may
happen to the disk.
-/

namespace DartUdp.Storage

open DartUdp.Lib DartUdp.Transfer DartUdp.Session

/-- `read_state_bytes` takes the encoded record for the record it was. -/
def StateRecord.readsBack (record : StateRecord) : Bool :=
  match readStateBytes (encodeState record) with
  | .ok read => read == record
  | .error _ => false

namespace Asserted

abbrev AssertedM := EStateM (Halt StorageError) Disk

def writeState (pid : Nat) (path : Path) (record : StateRecord) : AssertedM Unit :=
  if record.readsBack then safe (Storage.writeState pid path record) else throw .panic

/-! ## Recovery -/

def recoverState (H : Host) (pid : Nat) (path : Path) : AssertedM Unit := do
  let record ← safe (do try pure (some (← readState path)) catch _ => pure none)
  match record with
  | none => safe (removeFileIfExists path)
  | some record => do
      let record ← safe (recoverRecord H record)
      writeState pid path record

def recoverAll (H : Host) (pid : Nat) : List Path → AssertedM Unit
  | [] => pure ()
  | path :: paths => do
      if (path.getLast?.bind extension) = some (ascii "state") then recoverState H pid path
      recoverAll H pid paths

def recoverTransfers (H : Host) (pid : Nat) : List Path → AssertedM Unit
  | [] => pure ()
  | path :: paths => do
      match ← safe (metadata path) with
      | some .dir => do recoverAll H pid ((← get).fs.readDir path)
      | _ => pure ()
      recoverTransfers H pid paths

def recoverStates (H : Host) (pid : Nat) : AssertedM Unit := do
  recoverTransfers H pid ((← get).fs.readDir sessionsDirectory)

def openStorage (H : Host) (pid : Nat) : AssertedM Unit := do
  safe ensureLayout
  recoverStates H pid

/-! ## Methods -/

def registerFile (H : Host) (pid : Nat) (registration : FileRegistration) :
    AssertedM Unit := do
  match validateStoragePath registration.relativePath with
  | .error e => throw (.error e)
  | .ok () => do
      safe (ensureTransferDirectories registration.transferId)
      let record ← safe (recordToRegister registration)
      let record ← safe (recoverRecord H record)
      writeState pid (statePath registration.transferId registration.fileId) record

def checkpoint (pid : Nat) (transferId : TransferId) (fileId : FileId) (state : DurableState) :
    AssertedM Unit := do
  let record ← safe (loadRecord transferId fileId)
  if record.complete then pure ()
  else do
    let partialFile := partialPath transferId fileId
    let length := (← safe (fileLengthIfExists partialFile)).getD 0
    if state.durableOffset > record.registration.size || state.durableOffset > length then
      throw (.error
        (.invalidOffset fileId state.durableOffset (min length record.registration.size)))
    if state.checkpointId < record.checkpointId || state.durableOffset < record.durableOffset ||
        (state.checkpointId == record.checkpointId &&
          state.durableOffset == record.durableOffset && state.stateHash != record.stateHash) then
      throw (.error (.checkpointRegression fileId))
    if state.checkpointId == record.checkpointId &&
        state.durableOffset == record.durableOffset then pure ()
    else do
      safe (syncPartial partialFile record.registration.size state.durableOffset)
      writeState pid (statePath transferId fileId)
        { record with
          durableOffset := state.durableOffset
          checkpointId := state.checkpointId
          stateHash := state.stateHash }

def completeFile (H : Host) (policy : OverwritePolicy) (pid : Nat) (transferId : TransferId)
    (fileId : FileId) (finalSize : Nat) (contentHash : Digest) : AssertedM Unit := do
  let record ← safe (loadRecord transferId fileId)
  let registration := record.registration
  if finalSize ≠ registration.size then
    throw (.error (.sizeMismatch fileId registration.size finalSize))
  if contentHash ≠ registration.contentHash then
    throw (.error (.integrityMismatch fileId registration.contentHash contentHash))
  if record.complete then do
    let path ← safe
      (destinationPath (record.installedRelativePath.getD registration.relativePath))
    if ← safe (destinationMatches H path registration) then pure ()
    else throw (.error (.checkpointCorrupt fileId))
  else do
    if record.durableOffset ≠ registration.size then
      throw (.error (.invalidOffset fileId record.durableOffset registration.size))
    let installed ← safe (install H policy transferId fileId registration)
    writeState pid (statePath transferId fileId) (record.completed installed)

def resetFile (pid : Nat) (transferId : TransferId) (fileId : FileId) : AssertedM Unit := do
  let record ← safe (loadRecord transferId fileId)
  safe (removeFileIfExists (partialPath transferId fileId))
  writeState pid (statePath transferId fileId) (StateRecord.new record.registration)

end Asserted

/-! ## Runs -/

/-- What is done to a storage. -/
inductive Operation where
  /-- `FileStorage::open`, also on a storage that was open before. -/
  | openStorage
  | call (call : Call)
  | resetFile (transferId : TransferId) (fileId : FileId)
  /-- Anything that writes no record: `cleanup_transfer`, a crash, other programs. -/
  | disturb (disk : Disk)

namespace Operation

def run (H : Host) (policy : OverwritePolicy) (pid : Nat) : Operation → StorageM Unit
  | .openStorage => Storage.openStorage H pid
  | .call c => c.run H policy pid
  | .resetFile t f => Storage.resetFile pid t f
  | .disturb disk => set disk

/-- The operation with its assertions. -/
def asserted (H : Host) (policy : OverwritePolicy) (pid : Nat) :
    Operation → Asserted.AssertedM Unit
  | .openStorage => Asserted.openStorage H pid
  | .call (.registerFile registration) => Asserted.registerFile H pid registration
  | .call (.writeData t f offset data) => safe (writeData t f offset data)
  | .call (.checkpoint t f state) => Asserted.checkpoint pid t f state
  | .call (.completeFile t f size hash) => Asserted.completeFile H policy pid t f size hash
  | .resetFile t f => Asserted.resetFile pid t f
  | .disturb disk => set disk

end Operation

/-- The disk after a run. -/
def runOperations (H : Host) (policy : OverwritePolicy) (pid : Nat) (d : Disk)
    (operations : List Operation) : Disk :=
  operations.foldl (fun d operation => after (operation.run H policy pid) d) d

/-- The disk after a run with assertions, unless one of them did not hold. An
operation that fails does not end the run. -/
def assertedRun (H : Host) (policy : OverwritePolicy) (pid : Nat) :
    Disk → List Operation → Option Disk
  | d, [] => some d
  | d, operation :: operations =>
      match operation.asserted H policy pid d with
      | .ok () d' => assertedRun H policy pid d' operations
      | .error (.error _) d' => assertedRun H policy pid d' operations
      | .error .panic _ => none

end DartUdp.Storage
