import DartUdp.Lib.Prog
import DartUdp.Storage.Record

/-!
# Opening a file storage

A storage keeps its own files in `.udp-transfer` below its root: the records
under `sessions`, the content received so far under `partial`. Opening it
makes these directories and recovers every record found: a record is brought
in line with what is really on disk before anything resumes from it.

Paths are relative to the root. The hash functions are those of other crates, and
what the operating system lets a process do with a file is up to it; both are only
needed for the files that are installed.
-/

namespace DartUdp.Storage

open DartUdp.Lib DartUdp.Transfer

/-- `blake3::hash` and `Sha256::digest`. -/
structure Hashes where
  digest : HashAlgorithm → Bytes → Vector UInt8 32

/-- What a storage is given besides the disk and its policy: the hash functions,
`sync_all` of its configuration, and what the operating system says of the files
it installs. A path may be too long for a file; the permissions and times of a
file may not be set, which is the operation that failed; and a file with the
permissions it was registered with may not be opened for reading again. -/
structure Host extends Hashes where
  syncAll : Bool
  fits : Path → Bool
  applyMetadata : FileMetadata → Option String
  opens : FileMetadata → Bool

/-- The disk below the root, and the process-wide counter of temporary names.
`trail` is a history variable: what the disk was right after each write, which
is what a crash can leave behind. -/
structure Disk where
  fs : Fs
  tempCounter : Nat
  trail : List Fs

/-- The disk as a new process finds it. -/
def Disk.boot (fs : Fs) : Disk := ⟨fs, 0, []⟩

/-- A method of the storage: it fails in place. -/
abbrev StorageM := EStateM StorageError Disk

/-- Run a write of the file system, or fail with its `operation`. -/
def write (operation : String) (f : Fs → Option Fs) : StorageM Unit := do
  match f (← get).fs with
  | some fs => modify fun d => { d with fs, trail := d.trail ++ [fs] }
  | none => throw (.io operation)

/-- `fs::symlink_metadata`. -/
def metadata (path : Path) : StorageM (Option Node) := do
  pure ((← get).fs.get? path)

/-! ## Paths -/

def storageDirectory : Path := [ascii ".udp-transfer"]

def sessionsDirectory : Path := storageDirectory ++ [ascii "sessions"]

def partialsDirectory : Path := storageDirectory ++ [ascii "partial"]

/-- `TransferId` and `FileId` are displayed in hexadecimal. -/
def displayId (id : Id) : Bytes := hex id.toList

def sessionDirectory (transferId : TransferId) : Path :=
  sessionsDirectory ++ [displayId transferId]

def partialDirectory (transferId : TransferId) : Path :=
  partialsDirectory ++ [displayId transferId]

def statePath (transferId : TransferId) (fileId : FileId) : Path :=
  sessionDirectory transferId ++ [displayId fileId ++ ascii ".state"]

def partialPath (transferId : TransferId) (fileId : FileId) : Path :=
  partialDirectory transferId ++ [displayId fileId ++ ascii ".part"]

/-- `Path::extension` of a file name: what follows its last dot, unless the
name starts with it. -/
def extension (name : Bytes) : Option Bytes :=
  match name.reverse.idxOf? 46 with
  | none => none
  | some i => if i + 1 = name.length then none else some (name.drop (name.length - i))

/-! ## Files and directories -/

/-- `ensure_directory`. -/
def ensureDirectory (path : Path) : StorageM Unit := do
  match ← metadata path with
  | some .symlink => throw (.symbolicLinkNotAllowed path)
  | some .dir => pure ()
  | some (.file _) => throw .invalidRoot
  | none => write "create storage directory" (·.put? path .dir)

/-- `file_length_if_exists`. -/
def fileLengthIfExists (path : Path) : StorageM (Option Nat) := do
  match ← metadata path with
  | some .symlink => throw (.symbolicLinkNotAllowed path)
  | some (.file bytes) => pure (some bytes.length)
  | some .dir => throw (.unsupportedFileType path)
  | none => pure none

/-- `File::set_len`: cut off, or filled up with zeros. -/
def setLen (bytes : Bytes) (length : Nat) : Bytes :=
  bytes.take length ++ List.replicate (length - bytes.length) 0

/-- `truncate_file`. Opening does not follow a link. -/
def truncateFile (path : Path) (length : Nat) : StorageM Unit := do
  match ← metadata path with
  | some (.file bytes) =>
      write "truncate partial file" (·.put? path (.file (setLen bytes length)))
  | _ => throw (.io "open existing partial file")

/-- `remove_file_if_exists`. -/
def removeFileIfExists (path : Path) : StorageM Unit := do
  match ← metadata path with
  | some .dir => throw (.unsupportedFileType path)
  | some _ => write "remove storage file" (·.erase? path)
  | none => pure ()

/-- `fs::read`. -/
def readFile (path : Path) : StorageM Bytes := do
  match ← metadata path with
  | some (.file bytes) => pure bytes
  | _ => throw (.io "read checkpoint state")

/-- `read_state`. -/
def readState (path : Path) : StorageM StateRecord := do
  let bytes ← readFile path
  if bytes.length > maxStateSize then throw .malformedState
  match readStateBytes bytes with
  | .ok record => pure record
  | .error e => throw e

/-- The temporary name of `write_state`. -/
def tempPath (parent : Path) (pid counter : Nat) : Path :=
  parent ++ [ascii ".state.tmp." ++ ascii (toString pid) ++ ascii "." ++ ascii (toString counter)]

/-- The closure of `write_state`: a new file beside the old one, renamed over
it. A file that exists is not opened as new, and a directory is not replaced
by a file. -/
def replaceState (temp path : Path) (bytes : Bytes) : StorageM Unit := do
  match ← metadata temp with
  | some _ => throw (.io "create checkpoint state")
  | none => do
      write "create checkpoint state" (·.put? temp (.file bytes))
      write "atomically replace checkpoint state" (·.rename? temp path)

/-- `write_state`. Syncing has no effect that can be seen here. -/
def writeState (pid : Nat) (path : Path) (record : StateRecord) : StorageM Unit := do
  ensureDirectory path.dropLast
  let counter := (← get).tempCounter
  modify fun d => { d with tempCounter := (d.tempCounter + 1) % 2 ^ 64 }
  let temp := tempPath path.dropLast pid counter
  try replaceState temp path (encodeState record)
  catch e =>
    try removeFileIfExists temp catch _ => pure ()
    throw e

/-! ## Recovery -/

/-- `destination_path`, over the components of the relative path. -/
def destinationPath (relativePath : Bytes) : StorageM Path := do
  match validateStoragePath relativePath with
  | .ok () => pure (splitSlash relativePath)
  | .error e => throw e

/-- `destination_matches`. A file that stands at a destination has the permissions
it was registered with. -/
def destinationMatches (H : Host) (path : Path) (registration : FileRegistration) :
    StorageM Bool := do
  match ← metadata path with
  | some (.file bytes) =>
      if bytes.length ≠ registration.size then pure false
      else if !H.opens registration.metadata then throw (.io "open file for reading")
      else
        pure ((⟨registration.contentHash.algorithm,
          H.digest registration.contentHash.algorithm bytes⟩ : Digest) ==
          registration.contentHash)
  | _ => pure false

/-- The reset of the durable state that recovery makes in three places. -/
def StateRecord.reset (record : StateRecord) : StateRecord :=
  { record with
    durableOffset := 0
    checkpointId := 0
    stateHash := zeroDigest record.registration.contentHash.algorithm }

/-- The branch of `recover_record` for a completed file. -/
def recoverComplete (H : Host) (record : StateRecord) : StorageM StateRecord := do
  removeFileIfExists (partialPath record.registration.transferId record.registration.fileId)
  let installedPath := record.installedRelativePath.getD record.registration.relativePath
  let path ← destinationPath installedPath
  if ← destinationMatches H path record.registration then pure record
  else pure { record.reset with complete := false, installedRelativePath := none }

/-- The branch of `recover_record` for a file in progress whose partial file
has `length` bytes. -/
def recoverPartial (partialFile : Path) (record : StateRecord) (length : Nat) :
    StorageM StateRecord := do
  let record ←
    if record.durableOffset > record.registration.size then do
      truncateFile partialFile 0
      pure record.reset
    else if length > record.registration.size || length != record.durableOffset then do
      truncateFile partialFile record.durableOffset
      pure record
    else pure record
  let length := (← fileLengthIfExists partialFile).getD 0
  if length < record.durableOffset then do
    truncateFile partialFile 0
    pure record.reset
  else pure record

/-- `recover_record`, answering the recovered record. -/
def recoverRecord (H : Host) (record : StateRecord) : StorageM StateRecord := do
  match validateStoragePath record.registration.relativePath with
  | .error e => throw e
  | .ok () =>
      if record.complete then recoverComplete H record
      else
        let partialFile :=
          partialPath record.registration.transferId record.registration.fileId
        match ← fileLengthIfExists partialFile with
        | none =>
            if record.durableOffset ≠ 0 || record.checkpointId ≠ 0 then pure record.reset
            else pure record
        | some length => recoverPartial partialFile record length

/-- One record found by `recover_states`. One that cannot be read is removed. -/
def recoverState (H : Host) (pid : Nat) (path : Path) : StorageM Unit := do
  let record ← try pure (some (← readState path)) catch _ => pure none
  match record with
  | none => removeFileIfExists path
  | some record => do
      let record ← recoverRecord H record
      writeState pid path record

/-- The records in one directory. -/
def recoverAll (H : Host) (pid : Nat) : List Path → StorageM Unit
  | [] => pure ()
  | path :: paths => do
      if (path.getLast?.bind extension) = some (ascii "state") then recoverState H pid path
      recoverAll H pid paths

/-- The directories of the transfers. Each is listed when its turn comes. -/
def recoverTransfers (H : Host) (pid : Nat) : List Path → StorageM Unit
  | [] => pure ()
  | path :: paths => do
      match ← metadata path with
      | some .dir => do recoverAll H pid ((← get).fs.readDir path)
      | _ => pure ()
      recoverTransfers H pid paths

/-- `recover_states`. -/
def recoverStates (H : Host) (pid : Nat) : StorageM Unit := do
  recoverTransfers H pid ((← get).fs.readDir sessionsDirectory)

/-- `ensure_layout`. -/
def ensureLayout : StorageM Unit := do
  ensureDirectory storageDirectory
  ensureDirectory sessionsDirectory
  ensureDirectory partialsDirectory

/-- `FileStorage::open_with_config`, on an existing root. -/
def openStorage (H : Host) (pid : Nat) : StorageM Unit := do
  ensureLayout
  recoverStates H pid

end DartUdp.Storage
