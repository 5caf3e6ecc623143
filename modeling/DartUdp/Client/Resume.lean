import DartUdp.Lib.Codec
import DartUdp.Protocol.Message
import DartUdp.Session.Manifest
import DartUdp.Storage.Record

/-!
# The ticket a transfer is resumed with

A ticket is kept in a file of its own between two runs of the client. It says which
transfer may be resumed and in which role, and the sender's ticket brings along the
whole manifest. The digest of the manifest is written once, as that of the ticket.
-/

namespace DartUdp.Client

open DartUdp.Lib DartUdp.Transfer
open DartUdp.Protocol (PairingId SessionTicket TransferRole maxTicketLen ByteEnum)
open DartUdp.Session (CoreError Manifest ManifestEntry maxManifestFiles)
open DartUdp.Protocol.ByteEnum (toU8 tryFrom)

/-- What a ticket can fail with. -/
inductive ClientError where
  | io (message : String)
  | core (error : CoreError)
deriving DecidableEq

/-- `invalid_resume_data`. -/
def invalidResumeData (message : String) : ClientError := .io message

structure ResumeTicket where
  pairingId : PairingId
  transferId : TransferId
  role : TransferRole
  manifestDigest : Digest
  expiresAtMillis : UInt64
  ticket : SessionTicket
  manifest : Option Manifest

def resumeTicketMagic : Bytes := ascii "UDPRSM01"

def resumeTicketVersion : UInt8 := 1

def maxResumeTicketFileSize : Nat := 16 * 1024 * 1024

/-- `validate_ticket_bytes`. -/
def validateTicketBytes (ticket : SessionTicket) : Except ClientError Unit :=
  if ticket.isEmpty || ticket.length > maxTicketLen then
    .error (invalidResumeData "resume ticket 长度无效")
  else .ok ()

/-- `ResumeTicket::from_wire`. -/
def ResumeTicket.fromWire (pairingId : PairingId) (transferId : TransferId) (role : TransferRole)
    (manifestDigest : Digest) (expiresAtMillis : UInt64) (ticket : SessionTicket) :
    Except ClientError ResumeTicket :=
  match validateTicketBytes ticket with
  | .error e => .error e
  | .ok () =>
      .ok ⟨pairingId, transferId, role, manifestDigest, expiresAtMillis, ticket, none⟩

/-- `ResumeTicket::with_manifest`. -/
def ResumeTicket.withManifest (t : ResumeTicket) (manifest : Manifest) : ResumeTicket :=
  { t with manifest := some manifest }

/-! ## Writing a ticket

A digest and the metadata of a file are written as they are in a record of the
storage. -/

/-- `encode_blob`, and `encode_string` of the bytes of a text. -/
def encodeBlob (value : Bytes) : Bytes := beBytes 4 value.length ++ value

def encodeEntry (entry : ManifestEntry) : Bytes :=
  entry.fileId.toList ++ (encodeBlob entry.relativePath ++ (beBytes 8 entry.size ++
    (Storage.encodeDigest entry.contentHash ++ Storage.encodeMetadata entry.metadata)))

def encodeManifest : Option Manifest → Bytes
  | some manifest =>
      1 :: (beBytes 4 manifest.fileCount ++ manifest.entries.flatMap encodeEntry)
  | none => [0]

/-- `ResumeTicket::encode`. -/
def ResumeTicket.encode (t : ResumeTicket) : Bytes :=
  resumeTicketMagic ++ ([resumeTicketVersion] ++ (t.pairingId.toList ++ (t.transferId.toList ++
    ([toU8 t.role] ++ (Storage.encodeDigest t.manifestDigest ++
      (beBytes 8 t.expiresAtMillis.toNat ++ (encodeBlob t.ticket ++
        encodeManifest t.manifest)))))))

/-! ## Reading it back -/

abbrev Reader := Decoder ClientError

def truncated : ClientError := invalidResumeData "resume ticket 数据截断"

/-- `read_exact`. -/
def readExact (n : Nat) : Reader Bytes := exactly n truncated

def readArray (n : Nat) : Reader (Vector UInt8 n) := fun bytes =>
  if h : n ≤ bytes.length then
    .ok (⟨(bytes.take n).toArray, size_take h⟩, bytes.drop n)
  else .error truncated

def readU8 : Reader UInt8 := fun bytes =>
  match bytes with
  | [] => .error truncated
  | byte :: rest => .ok (byte, rest)

def readU32 : Reader Nat := ofBe <$> readExact 4

def readU64 : Reader Nat := ofBe <$> readExact 8

/-- `i64::from_be_bytes`. -/
def readI64 : Reader Int :=
  (fun bytes => if ofBe bytes < 2 ^ 63 then (ofBe bytes : Int) else ofBe bytes - 2 ^ 64) <$>
    readExact 8

/-- `read_blob`. A `u32` always fits a `usize` here. -/
def readBlob (maximum : Nat) : Reader Bytes := do
  let length ← readU32
  if length > maximum then throw (invalidResumeData "resume ticket 字段过大")
  readExact length

def readString (maximum : Nat) : Reader Bytes := do
  let bytes ← readBlob maximum
  if utf8Valid bytes then return bytes
  throw (invalidResumeData "resume ticket 路径不是 UTF-8")

def readDigest : Reader Digest := do
  let tag ← readU8
  if tag = 1 then return ⟨.blake3, ← readArray 32⟩
  if tag = 2 then return ⟨.sha256, ← readArray 32⟩
  throw (invalidResumeData "resume ticket hash 算法无效")

/-- An optional field of the metadata, behind its flag. -/
def readOption {α : Type} (read : Reader α) : Reader (Option α) := do
  let flag ← readU8
  if flag = 0 then return none
  if flag = 1 then return some (← read)
  throw (invalidResumeData "resume ticket metadata 无效")

def readMetadata : Reader FileMetadata := do
  let modifiedTimeUnixSeconds ← readOption readI64
  let mode ← readOption readU32
  return ⟨modifiedTimeUnixSeconds, mode⟩

/-- `read_enum`. -/
def readEnum (field : String) : Reader TransferRole := do
  match tryFrom (← readU8) with
  | .ok role => return role
  | .error _ => throw (invalidResumeData field)

/-- `?` on a result of another crate. -/
def liftCore {α : Type} : Except CoreError α → Reader α
  | .ok a => pure a
  | .error e => throw (.core e)

/-- One turn of the loop over the entries. -/
def readEntry : Reader ManifestEntry := do
  let fileId ← readArray 16
  let relativePath ← readString maxPathLen
  let size ← readU64
  let contentHash ← readDigest
  let metadata ← readMetadata
  liftCore (ManifestEntry.new fileId relativePath size contentHash metadata)

def readEntries : Nat → Reader (List ManifestEntry)
  | 0 => return []
  | count + 1 => do
      let entry ← readEntry
      return entry :: (← readEntries count)

def readManifest (manifestDigest : Digest) : Reader (Option Manifest) := do
  let flag ← readU8
  if flag = 0 then return none
  if flag = 1 then
    let count ← readU32
    if count > maxManifestFiles then throw (invalidResumeData "manifest 文件数超限")
    let entries ← readEntries count
    return some (← liftCore (Manifest.new manifestDigest entries))
  throw (invalidResumeData "manifest 标记无效")

/-- `ResumeTicket::decode` between the check of the size and that of the end. -/
def readTicket : Reader ResumeTicket := do
  let magic ← readExact resumeTicketMagic.length
  if magic ≠ resumeTicketMagic then
    throw (invalidResumeData "resume ticket 版本或 magic 无效")
  let version ← readU8
  if version ≠ resumeTicketVersion then
    throw (invalidResumeData "resume ticket 版本或 magic 无效")
  let pairingId ← readArray 16
  let transferId ← readArray 16
  let role ← readEnum "transfer role"
  let manifestDigest ← readDigest
  let expiresAtMillis ← readU64
  let ticket ← readBlob maxTicketLen
  validateTicketBytes ticket
  let manifest ← readManifest manifestDigest
  return ⟨pairingId, transferId, role, manifestDigest, UInt64.ofNat expiresAtMillis, ticket,
    manifest⟩

/-- `ResumeTicket::decode`. -/
def ResumeTicket.decode (bytes : Bytes) : Except ClientError ResumeTicket :=
  if bytes.length > maxResumeTicketFileSize then
    .error (invalidResumeData "resume ticket 文件过大")
  else
    match readTicket bytes with
    | .error e => .error e
    | .ok (ticket, rest) =>
        if rest.isEmpty then .ok ticket
        else .error (invalidResumeData "resume ticket 包含尾部数据")

end DartUdp.Client
