import DartUdp.Lib.Fs
import DartUdp.Transfer.Types

/-!
# The record of one file in the storage

The storage keeps, for each file of a transfer, a record of what was
registered and how far the received content is safe. The record lives in a
small file of its own, in a fixed binary layout.
-/

namespace DartUdp.Storage

open DartUdp.Lib DartUdp.Transfer

inductive StorageError where
  | io (operation : String)
  | invalidRoot
  | invalidPath (path : Bytes)
  | pathEscapesRoot (path : Bytes)
  | symbolicLinkNotAllowed (path : Path)
  | unsupportedFileType (path : Path)
  | unknownFile (transferId : TransferId) (fileId : FileId)
  | invalidRegistration (fileId : FileId) (reason : String)
  | invalidOffset (fileId : FileId) (offset maximum : Nat)
  | dataConflict (fileId : FileId) (offset : Nat)
  | checkpointRegression (fileId : FileId)
  | checkpointCorrupt (fileId : FileId)
  | integrityMismatch (fileId : FileId) (expected actual : Digest)
  | sizeMismatch (fileId : FileId) (expected actual : Nat)
  | alreadyExists (fileId : FileId)
  | overwriteNeedsConfirmation (fileId : FileId)
  | malformedState
deriving DecidableEq, Repr

structure FileRegistration where
  transferId : TransferId
  fileId : FileId
  relativePath : Bytes
  size : Nat
  contentHash : Digest
  metadata : FileMetadata
deriving DecidableEq, Repr

structure StateRecord where
  registration : FileRegistration
  durableOffset : Nat
  checkpointId : Nat
  stateHash : Digest
  complete : Bool
  installedRelativePath : Option Bytes
deriving DecidableEq, Repr

/-- The digest of nothing received yet. -/
def zeroDigest (algorithm : HashAlgorithm) : Digest := ⟨algorithm, Vector.replicate 32 0⟩

/-- `StateRecord::new`. -/
def StateRecord.new (registration : FileRegistration) : StateRecord :=
  ⟨registration, 0, 0, zeroDigest registration.contentHash.algorithm, false, none⟩

/-- `Path::components` of a relative path has normal components only. -/
def allNormal (path : Bytes) : Bool :=
  path.head? != some slash && (splitSlash path).all (· != ascii "..") &&
    (splitSlash path).head? != some (ascii ".")

/-- `validate_storage_path`. -/
def validateStoragePath (path : Bytes) : Except StorageError Unit :=
  if path.length > maxPathLen || !validateRelativePath path then .error (.invalidPath path)
  else if !allNormal path then .error (.pathEscapesRoot path)
  else .ok ()

/-! ## Writing a record -/

def stateMagic : Bytes := ascii "UDPTST01"

def stateVersion : UInt8 := 2

def maxStateSize : Nat := 1024 * 1024

def HashAlgorithm.tag : HashAlgorithm → UInt8
  | .blake3 => 1
  | .sha256 => 2

def encodeDigest (digest : Digest) : Bytes :=
  HashAlgorithm.tag digest.algorithm :: digest.bytes.toList

/-- An optional field: a flag, then the value. -/
def encodeOption {α : Type} (encode : α → Bytes) : Option α → Bytes
  | some value => 1 :: encode value
  | none => [0]

/-- `i64::to_be_bytes`. -/
def encodeI64 (value : Int) : Bytes := beBytes 8 (value % 2 ^ 64).toNat

def encodeMetadata (metadata : FileMetadata) : Bytes :=
  encodeOption encodeI64 metadata.modifiedTimeUnixSeconds ++
    encodeOption (beBytes 4) metadata.mode

def encodeString (text : Bytes) : Bytes := beBytes 4 text.length ++ text

/-- `encode_state`. -/
def encodeState (record : StateRecord) : Bytes :=
  stateMagic ++ stateVersion :: record.registration.transferId.toList ++
    record.registration.fileId.toList ++ encodeString record.registration.relativePath ++
    beBytes 8 record.registration.size ++ encodeDigest record.registration.contentHash ++
    encodeMetadata record.registration.metadata ++ beBytes 8 record.durableOffset ++
    beBytes 8 record.checkpointId ++ encodeDigest record.stateHash ++
    (if record.complete then 1 else 0) :: encodeOption encodeString record.installedRelativePath

/-! ## Reading it back -/

/-- A cursor over the bytes of a record. -/
abbrev Reader := StateT Bytes (Except StorageError)

/-- `read_exact_or_eof`. -/
def readExact (n : Nat) : Reader Bytes := fun bytes =>
  if n ≤ bytes.length then .ok (bytes.take n, bytes.drop n) else .error .malformedState

def readU8 : Reader UInt8 := do
  match ← readExact 1 with
  | [b] => pure b
  | _ => throw .malformedState

def readU32 : Reader Nat := do pure (ofBe (← readExact 4))

def readU64 : Reader Nat := do pure (ofBe (← readExact 8))

def readI64 : Reader Int := do
  let value := ofBe (← readExact 8)
  pure (if value < 2 ^ 63 then value else (value : Int) - 2 ^ 64)

/-- A fixed array of bytes. -/
def readArray (n : Nat) : Reader (Vector UInt8 n) := fun bytes =>
  if h : n ≤ bytes.length then
    .ok (⟨(bytes.take n).toArray, size_take h⟩, bytes.drop n)
  else .error .malformedState

/-- `read_string`. -/
def readString : Reader Bytes := do
  let length ← readU32
  if length > maxPathLen then throw .malformedState
  let bytes ← readExact length
  if utf8Valid bytes then pure bytes else throw .malformedState

/-- `read_digest`. -/
def readDigest : Reader Digest := do
  let tag ← readU8
  if tag = 1 then do pure ⟨.blake3, ← readArray 32⟩
  else if tag = 2 then do pure ⟨.sha256, ← readArray 32⟩
  else throw .malformedState

/-- An optional field behind its flag. -/
def readOption {α : Type} (read : Reader α) : Reader (Option α) := do
  let flag ← readU8
  if flag = 0 then pure none
  else if flag = 1 then do pure (some (← read))
  else throw .malformedState

/-- `read_metadata`. -/
def readMetadata : Reader FileMetadata := do
  let modifiedTimeUnixSeconds ← readOption readI64
  let mode ← readOption readU32
  pure ⟨modifiedTimeUnixSeconds, mode⟩

/-- `validate_storage_path(..)?` while reading. -/
def checkPath (path : Bytes) : Reader Unit := fun bytes =>
  match validateStoragePath path with
  | .ok () => .ok ((), bytes)
  | .error e => .error e

/-- The flag of a completed file. -/
def readFlag : Reader Bool := do
  let flag ← readU8
  if flag = 0 then pure false
  else if flag = 1 then pure true
  else throw .malformedState

/-- The body of `read_state_bytes`, up to the check that nothing follows. -/
def readRecord : Reader StateRecord := do
  let magic ← readExact stateMagic.length
  if magic ≠ stateMagic then throw .malformedState
  let version ← readU8
  if version ≠ stateVersion then throw .malformedState
  let transferId ← readArray 16
  let fileId ← readArray 16
  let relativePath ← readString
  checkPath relativePath
  let size ← readU64
  let contentHash ← readDigest
  let metadata ← readMetadata
  let durableOffset ← readU64
  let checkpointId ← readU64
  let stateHash ← readDigest
  let complete ← readFlag
  let installedRelativePath ← readOption readString
  match installedRelativePath with
  | some path => checkPath path
  | none => pure ()
  pure
    ⟨⟨transferId, fileId, relativePath, size, contentHash, metadata⟩, durableOffset,
      checkpointId, stateHash, complete, installedRelativePath⟩

/-- `read_state_bytes`. -/
def readStateBytes (bytes : Bytes) : Except StorageError StateRecord :=
  match readRecord bytes with
  | .error e => .error e
  | .ok (record, rest) => if rest.isEmpty then .ok record else .error .malformedState

end DartUdp.Storage
