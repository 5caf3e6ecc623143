import DartUdp.Storage.Complete

/-!
# The methods of a storage

Everything a caller may ask of a storage once it has its root: opening it, also
when it was open before, the calls that carry a file from its registration to its
destination, and those that start a file over, give up a transfer, or ask how far a
file is safe.

`register_manifest` and `register_entry` register one file after another, and
`resume_state` is `durable_state`.
-/

namespace DartUdp.Storage

open DartUdp.Lib DartUdp.Transfer DartUdp.Session

/-- `FileRegistration::from_manifest_entry`. -/
def FileRegistration.fromManifestEntry (transferId : TransferId) (entry : ManifestEntry) :
    FileRegistration :=
  ⟨transferId, entry.fileId, entry.relativePath, entry.size, entry.contentHash, entry.metadata⟩

/-- `StateRecord::durable_state`. -/
def StateRecord.durableState (record : StateRecord) : DurableState :=
  ⟨record.durableOffset, record.checkpointId, record.stateHash⟩

/-- `durable_state`. -/
def durableState (transferId : TransferId) (fileId : FileId) : StorageM DurableState := do
  let record ← loadRecord transferId fileId
  if record.complete then pure record.durableState
  else do
    let length ← fileLengthIfExists (partialPath transferId fileId)
    if (length.isNone && record.durableOffset != 0) ||
        length.any (· < record.durableOffset) ||
        record.durableOffset > record.registration.size then
      throw (.checkpointCorrupt fileId)
    else pure record.durableState

/-- `remove_directory_if_exists`. -/
def removeDirectoryIfExists (path : Path) : StorageM Unit := do
  match ← metadata path with
  | some .symlink => throw (.symbolicLinkNotAllowed path)
  | some .dir => write "remove transfer storage directory" (·.removeTree? path)
  | some (.file _) => throw (.unsupportedFileType path)
  | none => pure ()

/-- `cleanup_transfer`. -/
def cleanupTransfer (transferId : TransferId) : StorageM Unit := do
  removeDirectoryIfExists (sessionDirectory transferId)
  removeDirectoryIfExists (partialDirectory transferId)

/-- What is asked of a storage. -/
inductive Method where
  | openStorage
  | call (call : Call)
  | resetFile (transferId : TransferId) (fileId : FileId)
  | cleanupTransfer (transferId : TransferId)
  | durableState (transferId : TransferId) (fileId : FileId)

def Method.run (H : Host) (policy : OverwritePolicy) (pid : Nat) : Method → StorageM Unit
  | .openStorage => Storage.openStorage H pid
  | .call c => c.run H policy pid
  | .resetFile t f => Storage.resetFile pid t f
  | .cleanupTransfer t => Storage.cleanupTransfer t
  | .durableState t f => do
      let _ ← Storage.durableState t f
      pure ()

/-- The disk after a sequence of methods, some of which may have failed. -/
def runMethods (H : Host) (policy : OverwritePolicy) (pid : Nat) (d : Disk)
    (methods : List Method) : Disk :=
  methods.foldl (fun d method => after (method.run H policy pid) d) d

end DartUdp.Storage
