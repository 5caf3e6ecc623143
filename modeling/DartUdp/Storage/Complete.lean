import DartUdp.Session.Session
import DartUdp.Storage.Storage

/-!
# Receiving and completing a file

The methods of an open storage: a file is registered, its content is written
in order to the partial file, checkpoints record how much of it is safe, and
in the end the partial file is checked and moved to its destination.

What the destination may be is up to the overwrite policy. Installing takes
several writes, in an order that depends on the policy; the record is marked
complete by the last one. Before that the installed file is given its permissions
and times and is synced, and if that fails the file is in place all the same.
-/

namespace DartUdp.Storage

open DartUdp.Lib DartUdp.Transfer DartUdp.Session

/-! ## Records -/

/-- `read_state_if_exists`. -/
def readStateIfExists (path : Path) : StorageM (Option StateRecord) := do
  match ← metadata path with
  | none => pure none
  | some _ => do pure (some (← readState path))

/-- `load_record`. -/
def loadRecord (transferId : TransferId) (fileId : FileId) : StorageM StateRecord := do
  match ← readStateIfExists (statePath transferId fileId) with
  | some record => pure record
  | none => throw (.unknownFile transferId fileId)

/-- `registration_matches`. The metadata is not compared. -/
def registrationMatches (left right : FileRegistration) : Bool :=
  left.transferId == right.transferId && left.fileId == right.fileId &&
    left.relativePath == right.relativePath && left.size == right.size &&
    left.contentHash == right.contentHash

/-- `ensure_transfer_directories`. -/
def ensureTransferDirectories (transferId : TransferId) : StorageM Unit := do
  ensureDirectory (sessionDirectory transferId)
  ensureDirectory (partialDirectory transferId)

/-- The record `register_file` starts from: the one found, if it is about the
same file. -/
def recordToRegister (registration : FileRegistration) : StorageM StateRecord := do
  let partialFile := partialPath registration.transferId registration.fileId
  match ← readStateIfExists (statePath registration.transferId registration.fileId) with
  | some existing =>
      if registrationMatches existing.registration registration then pure existing
      else do
        removeFileIfExists (statePath registration.transferId registration.fileId)
        removeFileIfExists partialFile
        pure (StateRecord.new registration)
  | none => do
      removeFileIfExists partialFile
      pure (StateRecord.new registration)

/-- `register_file`. -/
def registerFile (H : Host) (pid : Nat) (registration : FileRegistration) : StorageM Unit := do
  match validateStoragePath registration.relativePath with
  | .error e => throw e
  | .ok () => do
      ensureTransferDirectories registration.transferId
      let record ← recordToRegister registration
      let record ← recoverRecord H record
      writeState pid (statePath registration.transferId registration.fileId) record

/-! ## Content -/

/-- `open_partial`, answering the content found. -/
def openPartial (path : Path) : StorageM Bytes := do
  match ← metadata path with
  | some (.file bytes) => pure bytes
  | none => do
      write "open partial file" (·.put? path (.file []))
      pure []
  | some .dir => throw (.io "open partial file")
  | some .symlink => throw (.io "open partial file")

/-- `open_partial_existing`, for a sync of the file. -/
def openPartialExisting (path : Path) : StorageM Unit := do
  match ← metadata path with
  | some (.file _) => pure ()
  | _ => throw (.io "open existing partial file")

/-- The bytes of `content` from `offset` on agree with `data`, as far as both
go. -/
def agrees (content : Bytes) (offset : Nat) (data : Bytes) : Bool :=
  let overlap := min (offset + data.length) content.length - offset
  (content.drop offset).take overlap == data.take overlap

/-- `write_data`. -/
def writeData (transferId : TransferId) (fileId : FileId) (absoluteOffset : Nat) (data : Bytes) :
    StorageM Unit := do
  let record ← loadRecord transferId fileId
  let size := record.registration.size
  if record.complete then throw (.invalidRegistration fileId "file is already complete")
  if 2 ^ 64 ≤ absoluteOffset + data.length then
    throw (.invalidOffset fileId absoluteOffset size)
  if absoluteOffset + data.length > size then
    throw (.invalidOffset fileId (absoluteOffset + data.length) size)
  let content ← openPartial (partialPath transferId fileId)
  if content.length < record.durableOffset || content.length > size then
    throw (.checkpointCorrupt fileId)
  if absoluteOffset > content.length then
    throw (.invalidOffset fileId absoluteOffset content.length)
  if !agrees content absoluteOffset data then throw (.dataConflict fileId absoluteOffset)
  if absoluteOffset + data.length > content.length then
    write "write partial file" (·.put? (partialPath transferId fileId)
      (.file (content ++ data.drop (content.length - absoluteOffset))))

/-- The partial file of a checkpoint is opened to be synced. One that is not
there is made if the file is empty, and not needed while nothing is safe. -/
def syncPartial (path : Path) (size durableOffset : Nat) : StorageM Unit := do
  match ← fileLengthIfExists path with
  | some _ => openPartialExisting path
  | none =>
      if size = 0 then do
        let _ ← openPartial path
        pure ()
      else if durableOffset = 0 then pure ()
      else openPartialExisting path

/-- `checkpoint`. -/
def checkpoint (pid : Nat) (transferId : TransferId) (fileId : FileId) (state : DurableState) :
    StorageM Unit := do
  let record ← loadRecord transferId fileId
  if record.complete then pure ()
  else do
    let partialFile := partialPath transferId fileId
    let length := (← fileLengthIfExists partialFile).getD 0
    if state.durableOffset > record.registration.size || state.durableOffset > length then
      throw (.invalidOffset fileId state.durableOffset (min length record.registration.size))
    if state.checkpointId < record.checkpointId || state.durableOffset < record.durableOffset ||
        (state.checkpointId == record.checkpointId &&
          state.durableOffset == record.durableOffset && state.stateHash != record.stateHash) then
      throw (.checkpointRegression fileId)
    if state.checkpointId == record.checkpointId &&
        state.durableOffset == record.durableOffset then pure ()
    else do
      syncPartial partialFile record.registration.size state.durableOffset
      writeState pid (statePath transferId fileId)
        { record with
          durableOffset := state.durableOffset
          checkpointId := state.checkpointId
          stateHash := state.stateHash }

/-! ## Completion -/

/-- `hash_file`. -/
def hashFile (H : Host) (path : Path) (algorithm : HashAlgorithm) : StorageM Digest := do
  match ← metadata path with
  | some (.file bytes) => pure ⟨algorithm, H.digest algorithm bytes⟩
  | _ => throw (.io "open file for reading")

/-- `ensure_directory`, of a directory above a destination. Nothing has a name
that is too long, and to ask for it is an error. -/
def ensureParent (H : Host) (path : Path) : StorageM Unit := do
  if (← metadata path).isNone && !H.fits path then throw (.io "inspect storage directory")
  ensureDirectory path

/-- The loop of `ensure_safe_parent`, from the directory `current` down. -/
def ensureBelow (H : Host) (current : Path) : List Bytes → StorageM Unit
  | [] => pure ()
  | name :: names => do
      ensureParent H (current ++ [name])
      ensureBelow H (current ++ [name]) names

/-- `ensure_safe_parent`. -/
def ensureSafeParent (H : Host) (path : Path) : StorageM Unit := ensureBelow H [] path.dropLast

/-- `path_exists`. -/
def pathExists (H : Host) (path : Path) : StorageM Bool := do
  if (← metadata path).isSome then pure true
  else if H.fits path then pure false
  else throw (.io "inspect destination path")

/-- `suffixed_path`. -/
def suffixedPath (path : Path) (index : Nat) : Path :=
  path.dropLast ++
    [path.getLast?.getD (ascii "file") ++ ascii "." ++ ascii (toString index)]

/-- The loop of `choose_destination` over the suffixes that are left. -/
def searchSuffix (H : Host) (destination : Path) (fileId : FileId) :
    Nat → Nat → StorageM Path
  | 0, _ => throw (.alreadyExists fileId)
  | left + 1, index => do
      if ← pathExists H (suffixedPath destination index) then
        searchSuffix H destination fileId left (index + 1)
      else pure (suffixedPath destination index)

def u32Max : Nat := 2 ^ 32 - 1

/-- `choose_destination`. -/
def chooseDestination (H : Host) (policy : OverwritePolicy) (destination : Path)
    (fileId : FileId) : StorageM Path := do
  match policy with
  | .renameWithSuffix =>
      if ← pathExists H destination then searchSuffix H destination fileId u32Max 1
      else pure destination
  | _ => pure destination

/-- `fs::rename`, to a name that may be too long. -/
def renameInto (H : Host) (partialFile destination : Path) : StorageM Unit := do
  if (← metadata destination).isNone && !H.fits destination then
    throw (.io "atomically rename completed file")
  write "atomically rename completed file" (·.rename? partialFile destination)

/-- `move_into_place`. -/
def moveIntoPlace (H : Host) (partialFile destination : Path) (policy : OverwritePolicy)
    (fileId : FileId) : StorageM Unit := do
  match policy with
  | .ask =>
      if ← pathExists H destination then throw (.overwriteNeedsConfirmation fileId)
      renameInto H partialFile destination
  | .noReplace =>
      if ← pathExists H destination then throw (.alreadyExists fileId)
      write "atomically install file" (·.link? partialFile destination)
      write "remove installed partial file" (·.erase? partialFile)
  | .replaceAfterConfirm => renameInto H partialFile destination
  | .renameWithSuffix => renameInto H partialFile destination

/-- `apply_metadata`, and `sync_file` if the configuration asks for it. -/
def settleFile (H : Host) (metadata : FileMetadata) : StorageM Unit :=
  match H.applyMetadata metadata with
  | some operation => throw (.io operation)
  | none => do
      if H.syncAll && !H.opens metadata then throw (.io "open file for reading")

/-- A destination as it is recorded, relative to the root. -/
def joinSlash : Path → Bytes := List.intercalate [slash]

/-- The part of `complete_inner` for a partial file that is there: it is
checked and moved to the destination, which is answered. -/
def installPartial (H : Host) (policy : OverwritePolicy) (fileId : FileId)
    (partialFile destination : Path) (registration : FileRegistration) : StorageM Bytes := do
  let actualSize := (← fileLengthIfExists partialFile).getD 0
  if actualSize ≠ registration.size then
    throw (.sizeMismatch fileId registration.size actualSize)
  let actualHash ← hashFile H partialFile registration.contentHash.algorithm
  if actualHash ≠ registration.contentHash then
    throw (.integrityMismatch fileId registration.contentHash actualHash)
  openPartialExisting partialFile
  ensureSafeParent H destination
  let destination ← chooseDestination H policy destination fileId
  moveIntoPlace H partialFile destination policy fileId
  settleFile H registration.metadata
  pure (joinSlash destination)

/-- The partial file, made if the file is empty and it is not there. -/
def sourceExists (partialFile : Path) (size : Nat) : StorageM Bool := do
  if (← fileLengthIfExists partialFile).isSome then pure true
  else if size = 0 then do
    let _ ← openPartial partialFile
    pure true
  else pure false

/-- The part of `complete_inner` between its checks and the new record. -/
def install (H : Host) (policy : OverwritePolicy) (transferId : TransferId) (fileId : FileId)
    (registration : FileRegistration) : StorageM Bytes := do
  let partialFile := partialPath transferId fileId
  let destination ← destinationPath registration.relativePath
  if ← sourceExists partialFile registration.size then
    installPartial H policy fileId partialFile destination registration
  else if ← destinationMatches H destination registration then pure registration.relativePath
  else throw (.checkpointCorrupt fileId)

/-- The record of a file installed at `installed`. -/
def StateRecord.completed (record : StateRecord) (installed : Bytes) : StateRecord :=
  { record with
    durableOffset := record.registration.size
    complete := true
    installedRelativePath := some installed }

/-- `complete_file`. -/
def completeFile (H : Host) (policy : OverwritePolicy) (pid : Nat) (transferId : TransferId)
    (fileId : FileId) (finalSize : Nat) (contentHash : Digest) : StorageM Unit := do
  let record ← loadRecord transferId fileId
  let registration := record.registration
  if finalSize ≠ registration.size then
    throw (.sizeMismatch fileId registration.size finalSize)
  if contentHash ≠ registration.contentHash then
    throw (.integrityMismatch fileId registration.contentHash contentHash)
  if record.complete then do
    let path ← destinationPath (record.installedRelativePath.getD registration.relativePath)
    if ← destinationMatches H path registration then pure ()
    else throw (.checkpointCorrupt fileId)
  else do
    if record.durableOffset ≠ registration.size then
      throw (.invalidOffset fileId record.durableOffset registration.size)
    let installed ← install H policy transferId fileId registration
    writeState pid (statePath transferId fileId) (record.completed installed)

/-- `reset_file`. -/
def resetFile (pid : Nat) (transferId : TransferId) (fileId : FileId) : StorageM Unit := do
  let record ← loadRecord transferId fileId
  removeFileIfExists (partialPath transferId fileId)
  writeState pid (statePath transferId fileId) (StateRecord.new record.registration)

/-! ## Calls -/

/-- The calls that carry a file from its registration to its destination. -/
inductive Call where
  | registerFile (registration : FileRegistration)
  | writeData (transferId : TransferId) (fileId : FileId) (absoluteOffset : Nat) (data : Bytes)
  | checkpoint (transferId : TransferId) (fileId : FileId) (state : DurableState)
  | completeFile (transferId : TransferId) (fileId : FileId) (finalSize : Nat)
      (contentHash : Digest)

def Call.run (H : Host) (policy : OverwritePolicy) (pid : Nat) : Call → StorageM Unit
  | .registerFile registration => Storage.registerFile H pid registration
  | .writeData t f offset data => Storage.writeData t f offset data
  | .checkpoint t f state => Storage.checkpoint pid t f state
  | .completeFile t f size hash => Storage.completeFile H policy pid t f size hash

/-- The disk after a sequence of calls, some of which may have failed. -/
def runCalls (H : Host) (policy : OverwritePolicy) (pid : Nat) (d : Disk) (calls : List Call) :
    Disk :=
  calls.foldl (fun d call => after (call.run H policy pid) d) d

end DartUdp.Storage
