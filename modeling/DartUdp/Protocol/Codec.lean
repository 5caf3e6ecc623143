import DartUdp.Lib.Codec
import DartUdp.Protocol.Message

/-!
# Control messages on the wire

A message is an envelope of sixteen bytes and the body. A body is written field
by field, and each writer below answers the bytes of one field; a reader takes
what it reads off the front of the bytes that are left.
-/

namespace DartUdp.Protocol

open DartUdp.Lib
open DartUdp.Transfer (Digest HashAlgorithm maxPathLen)
open DartUdp.Session (maxManifestFiles)
open ByteEnum (toU8 tryFrom)

def protocolVersion : UInt8 := 1

def envelopeLen : Nat := 16

def maxControlMessageLen : Nat := 1024 * 1024

def maxManifestItemLen : Nat := 16 * 1024

def maxMessageFlags : UInt16 := 0b111

def maxStringLen : Nat := 0xffff

def u32Max : Nat := 0xffffffff

structure MessageFlags where
  bits : UInt16
  known : bits &&& ~~~maxMessageFlags = 0
deriving DecidableEq

def MessageFlags.fromBits (bits : UInt16) : Except ProtocolError MessageFlags :=
  if h : bits &&& ~~~maxMessageFlags = 0 then .ok ⟨bits, h⟩ else .error (.invalidFlags bits)

structure Envelope where
  messageType : MessageType
  version : UInt8
  flags : MessageFlags
  requestId : UInt64
deriving DecidableEq

structure DecodedMessage where
  envelope : Envelope
  message : Message
deriving DecidableEq

structure CodecLimits where
  maxMessageLen : Nat := maxControlMessageLen
  maxCandidates : Nat := Protocol.maxCandidates
  maxManifestFiles : Nat := Session.maxManifestFiles

/-- `validate_limits`. -/
def validateLimits (limits : CodecLimits) : Except ProtocolError Unit :=
  if limits.maxMessageLen < envelopeLen ∨ limits.maxMessageLen > maxControlMessageLen then
    .error (.invalidValue "max_message_len")
  else if limits.maxCandidates > maxCandidates then .error (.invalidValue "max_candidates")
  else if limits.maxManifestFiles > maxManifestFiles then
    .error (.invalidValue "max_manifest_files")
  else .ok ()

/-! ## Writing a field -/

namespace Writer

def u8 (value : UInt8) : Bytes := [value]

def u16 (value : UInt16) : Bytes := beBytes 2 value.toNat

def u32 (value : UInt32) : Bytes := beBytes 4 value.toNat

def u64 (value : UInt64) : Bytes := beBytes 8 value.toNat

def i64 (value : Int64) : Bytes := beBytes 8 value.toUInt64.toNat

def bytesFixed {n : Nat} (value : Vector UInt8 n) : Bytes := value.toList

def id (value : Transfer.Id) : Bytes := bytesFixed value

def blob (value : Bytes) (maximum : Nat) : Except ProtocolError Bytes :=
  if value.length > maximum ∨ value.length > u32Max then
    .error (.fieldTooLarge "blob" (min maximum u32Max) value.length)
  else .ok (beBytes 4 value.length ++ value)

def string (value : Text) (maximum : Nat) (field : String) : Except ProtocolError Bytes :=
  if value.bytes.length > maximum ∨ value.bytes.length > maxStringLen then
    .error (.fieldTooLarge field (min maximum maxStringLen) value.bytes.length)
  else .ok (beBytes 2 value.bytes.length ++ value.bytes)

def pairingCode (value : PairingCode) : Except ProtocolError Bytes :=
  if value.bytes.length > 0xff then .error .invalidPairingCode
  else .ok (beBytes 1 value.bytes.length ++ value.bytes)

def digest (value : Digest) : Bytes := u8 (toU8 value.algorithm) ++ bytesFixed value.bytes

/-- `u8::from` of a flag. -/
def bool (value : Bool) : Bytes := u8 (if value then 1 else 0)

def socketAddr : SocketAddr → Bytes
  | .v4 ip port => u8 4 ++ (bytesFixed ip ++ u16 port)
  | .v6 ip port flowinfo scopeId =>
      u8 6 ++ (bytesFixed ip ++ (u16 port ++ (u32 flowinfo ++ u32 scopeId)))

def socketAddrOption : Option SocketAddr → Bytes
  | some value => socketAddr value
  | none => u8 0

end Writer

/-! ## Reading a field -/

abbrev Reader := Decoder ProtocolError

namespace Reader

def take (length : Nat) (context : String) : Reader Bytes := exactly length (.truncated context)

def array (n : Nat) (context : String) : Reader (Vector UInt8 n) := fun input =>
  if h : n ≤ input.length then .ok (⟨(input.take n).toArray, size_take h⟩, input.drop n)
  else .error (.truncated context)

def u8 : Reader UInt8 := fun input =>
  match input with
  | [] => .error (.truncated "u8")
  | byte :: rest => .ok (byte, rest)

def u16 : Reader UInt16 := (fun value => UInt16.ofNat (ofBe value.toList)) <$> array 2 "u16"

def u32 : Reader UInt32 := (fun value => UInt32.ofNat (ofBe value.toList)) <$> array 4 "u32"

def u64 : Reader UInt64 := (fun value => UInt64.ofNat (ofBe value.toList)) <$> array 8 "u64"

def i64 : Reader Int64 :=
  (fun value => (UInt64.ofNat (ofBe value.toList)).toInt64) <$> array 8 "i64"

def id (context : String) : Reader Transfer.Id := array 16 context

def blob (maximum : Nat) (context : String) : Reader Bytes := do
  let length := (← u32).toNat
  if length > maximum then throw (.fieldTooLarge context maximum length)
  take length context

def string (maximum : Nat) (context : String) : Reader Text := do
  let length := (← u16).toNat
  if length > maximum then throw (.fieldTooLarge context maximum length)
  let bytes ← take length context
  if h : utf8Valid bytes then return ⟨bytes, h⟩ else throw (.invalidUtf8 context)

def pairingCode : Reader PairingCode := do
  let bytes ← take (← u8).toNat "pairing code"
  if !utf8Valid bytes then throw (.invalidUtf8 "pairing code")
  PairingCode.parse bytes

/-- The error of the enumeration gives way to the name of the field. -/
def enumValue {α : Type} [ByteEnum α] (field : String) : Reader α := do
  match tryFrom (← u8) with
  | .ok value => return value
  | .error _ => throw (.invalidValue field)

def digest : Reader Digest := return ⟨← enumValue "hash algorithm", ← array 32 "digest"⟩

def bool (field : String) : Reader Bool := do
  match ← u8 with
  | 0 => return false
  | 1 => return true
  | _ => throw (.invalidValue field)

def socketAddr : Reader SocketAddr := do
  match ← u8 with
  | 4 => return .v4 (← array 4 "IPv4 address") (← u16)
  | 6 => return .v6 (← array 16 "IPv6 address") (← u16) (← u32) (← u32)
  | _ => throw (.invalidValue "socket address")

/-- The byte that tells an address from its absence is the first of the address,
so it is put back. -/
def socketAddrOption : Reader (Option SocketAddr) := fun input =>
  match input with
  | [] => .error (.truncated "u8")
  | byte :: rest =>
      if byte = 0 then .ok (none, rest)
      else if byte = 4 ∨ byte = 6 then (some <$> socketAddr) input
      else .error (.invalidValue "candidate address")

def finish : Reader Unit := atEnd (.invalidValue "trailing message body")

end Reader

/-! ## Candidates and metadata -/

/-- The number that stands on the wire for no interface. -/
def noInterface : UInt32 := 0xffffffff

/-- `encode_candidate`. -/
def encodeCandidate (candidate : Candidate) : Except ProtocolError Bytes := do
  candidate.validate
  return [Writer.id candidate.id, Writer.u8 (toU8 candidate.kind),
    Writer.socketAddrOption candidate.address, Writer.u16 candidate.priority,
    Writer.u32 (candidate.interfaceIndex.getD noInterface)].flatten

def readInterfaceIndex (value : UInt32) : Option UInt32 :=
  if value = noInterface then none else some value

/-- `decode_candidate`. -/
def decodeCandidate : Reader Candidate := do
  let candidate : Candidate := {
    id := ← Reader.id "candidate id"
    kind := ← Reader.enumValue "candidate kind"
    address := ← Reader.socketAddrOption
    priority := ← Reader.u16
    interfaceIndex := readInterfaceIndex (← Reader.u32) }
  candidate.validate
  return candidate

/-- The loop over the candidates in `encode_pairing`. -/
def encodeCandidates : List Candidate → Except ProtocolError Bytes
  | [] => return []
  | candidate :: rest => return (← encodeCandidate candidate) ++ (← encodeCandidates rest)

/-- The loop over the candidates in `decode_pairing`. -/
def decodeCandidates : Nat → Reader (List Candidate)
  | 0 => return []
  | count + 1 => return (← decodeCandidate) :: (← decodeCandidates count)

/-- `encode_metadata`. -/
def encodeMetadata (metadata : FileMetadata) : Bytes :=
  [Writer.u8 ((if metadata.modifiedTimeUnixSeconds.isSome then 1 else 0) |||
      (if metadata.mode.isSome then 2 else 0)),
    (metadata.modifiedTimeUnixSeconds.map Writer.i64).getD [],
    (metadata.mode.map Writer.u32).getD []].flatten

/-- What is there only if a flag says so. -/
def readIf {α : Type} (flag : Bool) (read : Reader α) : Reader (Option α) :=
  if flag then some <$> read else pure none

/-- `decode_metadata`. -/
def decodeMetadata : Reader FileMetadata := do
  let flags ← Reader.u8
  if flags &&& ~~~0b11 ≠ 0 then throw (.invalidValue "file metadata")
  return ⟨← readIf (flags &&& 1 != 0) Reader.i64, ← readIf (flags &&& 2 != 0) Reader.u32⟩

/-! ## Bodies -/

/-- `encode_pairing`. -/
def encodePairing (message : PairingControl) (limits : CodecLimits) : Except ProtocolError Bytes :=
  match message with
  | .createPairing clientInstanceId capability requestedTtl clientEphemeralKey =>
      return [Writer.id clientInstanceId, Writer.u8 (toU8 capability), Writer.u32 requestedTtl,
        Writer.bytesFixed clientEphemeralKey].flatten
  | .pairingCreated pairingId pairingCode expiresAt serverSessionTicket =>
      return [Writer.id pairingId, ← Writer.pairingCode pairingCode, Writer.u64 expiresAt,
        ← Writer.blob serverSessionTicket maxTicketLen].flatten
  | .joinPairing pairingCode clientInstanceId clientEphemeralKey =>
      return [← Writer.pairingCode pairingCode, Writer.id clientInstanceId,
        Writer.bytesFixed clientEphemeralKey].flatten
  | .pairingJoined pairingId offererIdentityHint accepterIdentityHint peerControlTicket =>
      return [Writer.id pairingId, ← Writer.string offererIdentityHint 256 "offerer identity",
        ← Writer.string accepterIdentityHint 256 "accepter identity",
        ← Writer.blob peerControlTicket maxTicketLen].flatten
  | .offerReady transferId manifestDigest fileCount totalSize senderDisplayName => do
      checkCount "file_count" limits.maxManifestFiles fileCount.toNat
      return [Writer.id transferId, Writer.digest manifestDigest, Writer.u64 fileCount,
        Writer.u64 totalSize, ← Writer.string senderDisplayName 256 "sender display name"].flatten
  | .acceptOffer transferId decision receiverRootPolicy =>
      return [Writer.id transferId, Writer.u8 (toU8 decision),
        ← Writer.string receiverRootPolicy maxRootLabelLen "receiver root policy"].flatten
  | .candidateList transferId candidates candidateDigest => do
      checkCount "candidates" limits.maxCandidates candidates.length
      return [Writer.id transferId, Writer.u16 (UInt16.ofNat candidates.length),
        ← encodeCandidates candidates, Writer.digest candidateDigest].flatten
  | .pathCheckAuthorization transferId checkToken expiresAt =>
      return [Writer.id transferId, Writer.bytesFixed checkToken, Writer.u64 expiresAt].flatten
  | .pathSelected transferId pathId kind rttMillis mtu =>
      return [Writer.id transferId, Writer.id pathId, Writer.u8 (toU8 kind), Writer.u64 rttMillis,
        Writer.u16 mtu].flatten
  | .relayOpen transferId relayId relayTicket =>
      return [Writer.id transferId, Writer.id relayId,
        ← Writer.blob relayTicket maxTicketLen].flatten
  | .relayClosed transferId reason =>
      return [Writer.id transferId, Writer.u8 (toU8 reason)].flatten
  | .cancel transferId reasonCode =>
      return [Writer.id transferId, Writer.u16 reasonCode].flatten
  | .resumeTicket pairingId transferId role manifestDigest expiresAt ticket =>
      return [Writer.id pairingId, Writer.id transferId, Writer.u8 (toU8 role),
        Writer.digest manifestDigest, Writer.u64 expiresAt,
        ← Writer.blob ticket maxTicketLen].flatten
  | .resumeTransfer pairingId transferId role clientInstanceId ticket =>
      return [Writer.id pairingId, Writer.id transferId, Writer.u8 (toU8 role),
        Writer.id clientInstanceId, ← Writer.blob ticket maxTicketLen].flatten
  | .resumeAccepted pairingId transferId role manifestDigest expiresAt =>
      return [Writer.id pairingId, Writer.id transferId, Writer.u8 (toU8 role),
        Writer.digest manifestDigest, Writer.u64 expiresAt].flatten
  | .peerReconnected transferId role =>
      return [Writer.id transferId, Writer.u8 (toU8 role)].flatten

/-- The fields of a pairing message, before `decode_pairing` validates them. -/
def readPairing (messageType : MessageType) (limits : CodecLimits) : Reader PairingControl :=
  match messageType with
  | .createPairing =>
      return .createPairing (← Reader.id "client instance id") (← Reader.enumValue "capability")
        (← Reader.u32) (← Reader.array 32 "client ephemeral key")
  | .pairingCreated =>
      return .pairingCreated (← Reader.id "pairing id") (← Reader.pairingCode) (← Reader.u64)
        (← Reader.blob maxTicketLen "session ticket")
  | .joinPairing =>
      return .joinPairing (← Reader.pairingCode) (← Reader.id "client instance id")
        (← Reader.array 32 "client ephemeral key")
  | .pairingJoined =>
      return .pairingJoined (← Reader.id "pairing id") (← Reader.string 256 "offerer identity")
        (← Reader.string 256 "accepter identity") (← Reader.blob maxTicketLen "session ticket")
  | .offerReady => do
      let transferId ← Reader.id "transfer id"
      let manifestDigest ← Reader.digest
      let fileCount ← Reader.u64
      checkCount "file_count" limits.maxManifestFiles fileCount.toNat
      return .offerReady transferId manifestDigest fileCount (← Reader.u64)
        (← Reader.string 256 "sender display name")
  | .acceptOffer =>
      return .acceptOffer (← Reader.id "transfer id") (← Reader.enumValue "decision")
        (← Reader.string maxRootLabelLen "receiver root policy")
  | .candidateList => do
      let transferId ← Reader.id "transfer id"
      let count := (← Reader.u16).toNat
      checkCount "candidates" limits.maxCandidates count
      return .candidateList transferId (← decodeCandidates count) (← Reader.digest)
  | .pathCheckAuthorization =>
      return .pathCheckAuthorization (← Reader.id "transfer id") (← Reader.array 32 "check token")
        (← Reader.u64)
  | .pathSelected =>
      return .pathSelected (← Reader.id "transfer id") (← Reader.id "path id")
        (← Reader.enumValue "path kind") (← Reader.u64) (← Reader.u16)
  | .relayOpen =>
      return .relayOpen (← Reader.id "transfer id") (← Reader.id "relay id")
        (← Reader.blob maxTicketLen "relay ticket")
  | .relayClosed =>
      return .relayClosed (← Reader.id "transfer id") (← Reader.enumValue "relay close reason")
  | .cancel => return .cancel (← Reader.id "transfer id") (← Reader.u16)
  | .resumeTicket =>
      return .resumeTicket (← Reader.id "pairing id") (← Reader.id "transfer id")
        (← Reader.enumValue "transfer role") (← Reader.digest) (← Reader.u64)
        (← Reader.blob maxTicketLen "resume ticket")
  | .resumeTransfer =>
      return .resumeTransfer (← Reader.id "pairing id") (← Reader.id "transfer id")
        (← Reader.enumValue "transfer role") (← Reader.id "client instance id")
        (← Reader.blob maxTicketLen "resume ticket")
  | .resumeAccepted =>
      return .resumeAccepted (← Reader.id "pairing id") (← Reader.id "transfer id")
        (← Reader.enumValue "transfer role") (← Reader.digest) (← Reader.u64)
  | .peerReconnected =>
      return .peerReconnected (← Reader.id "transfer id") (← Reader.enumValue "transfer role")
  | _ => throw (.invalidValue "pairing message type")

/-- `decode_pairing`. -/
def decodePairing (messageType : MessageType) (limits : CodecLimits) : Reader PairingControl := do
  let message ← readPairing messageType limits
  message.validate
  return message

/-- `encode_transfer`. -/
def encodeTransfer (message : TransferControl) (limits : CodecLimits) :
    Except ProtocolError Bytes :=
  match message with
  | .sessionHello transferId protocolVersion cryptoSuite manifestDigest resumeNamespace =>
      return [Writer.id transferId, Writer.u8 protocolVersion, Writer.u8 (toU8 cryptoSuite),
        Writer.digest manifestDigest, Writer.bytesFixed resumeNamespace].flatten
  | .manifestBegin fileCount totalSize manifestDigest => do
      checkCount "file_count" limits.maxManifestFiles fileCount.toNat
      return [Writer.u64 fileCount, Writer.u64 totalSize, Writer.digest manifestDigest].flatten
  | .manifestItem fileId relativePath size contentHash metadata =>
      return [Writer.id fileId, ← Writer.string relativePath maxPathLen "relative path",
        Writer.u64 size, Writer.digest contentHash, encodeMetadata metadata].flatten
  | .manifestEnd manifestDigest => return Writer.digest manifestDigest
  | .receiveDecision accepted overwritePolicy targetRootLabel =>
      return [Writer.bool accepted, Writer.u8 (toU8 overwritePolicy),
        ← Writer.string targetRootLabel maxRootLabelLen "target root label"].flatten
  | .resumeQuery fileId contentHash size =>
      return [Writer.id fileId, Writer.digest contentHash, Writer.u64 size].flatten
  | .resumeState fileId durableOffset checkpointId stateHash =>
      return [Writer.id fileId, Writer.u64 durableOffset, Writer.u64 checkpointId,
        Writer.digest stateHash].flatten
  | .fileBegin fileId dataStreamId baseOffset remainingSize contentHash =>
      return [Writer.id fileId, Writer.u64 dataStreamId, Writer.u64 baseOffset,
        Writer.u64 remainingSize, Writer.digest contentHash].flatten
  | .checkpoint fileId durableOffset checkpointId =>
      return [Writer.id fileId, Writer.u64 durableOffset, Writer.u64 checkpointId].flatten
  | .fileComplete fileId finalSize contentHash =>
      return [Writer.id fileId, Writer.u64 finalSize, Writer.digest contentHash].flatten
  | .fileRejected fileId reason => return [Writer.id fileId, Writer.u8 (toU8 reason)].flatten
  | .transferComplete transferId completedFiles totalSize =>
      return [Writer.id transferId, Writer.u64 completedFiles, Writer.u64 totalSize].flatten
  | .transferError scope code retryable message =>
      return [Writer.u8 (toU8 scope), Writer.u32 code, Writer.bool retryable,
        ← Writer.string message maxTransferErrorMessageLen "transfer error message"].flatten

/-- The fields of a transfer message, before `decode_transfer` validates them. -/
def readTransfer (messageType : MessageType) (limits : CodecLimits) : Reader TransferControl :=
  match messageType with
  | .sessionHello =>
      return .sessionHello (← Reader.id "transfer id") (← Reader.u8)
        (← Reader.enumValue "crypto suite") (← Reader.digest) (← Reader.array 16 "resume namespace")
  | .manifestBegin => do
      let fileCount ← Reader.u64
      checkCount "file_count" limits.maxManifestFiles fileCount.toNat
      return .manifestBegin fileCount (← Reader.u64) (← Reader.digest)
  | .manifestItem =>
      return .manifestItem (← Reader.id "file id") (← Reader.string maxPathLen "relative path")
        (← Reader.u64) (← Reader.digest) (← decodeMetadata)
  | .manifestEnd => return .manifestEnd (← Reader.digest)
  | .receiveDecision =>
      return .receiveDecision (← Reader.bool "accepted") (← Reader.enumValue "overwrite policy")
        (← Reader.string maxRootLabelLen "target root label")
  | .resumeQuery =>
      return .resumeQuery (← Reader.id "file id") (← Reader.digest) (← Reader.u64)
  | .resumeState =>
      return .resumeState (← Reader.id "file id") (← Reader.u64) (← Reader.u64) (← Reader.digest)
  | .fileBegin =>
      return .fileBegin (← Reader.id "file id") (← Reader.u64) (← Reader.u64) (← Reader.u64)
        (← Reader.digest)
  | .checkpoint =>
      return .checkpoint (← Reader.id "file id") (← Reader.u64) (← Reader.u64)
  | .fileComplete =>
      return .fileComplete (← Reader.id "file id") (← Reader.u64) (← Reader.digest)
  | .fileRejected =>
      return .fileRejected (← Reader.id "file id") (← Reader.enumValue "file reject reason")
  | .transferComplete =>
      return .transferComplete (← Reader.id "transfer id") (← Reader.u64) (← Reader.u64)
  | .transferError =>
      return .transferError (← Reader.enumValue "transfer error scope") (← Reader.u32)
        (← Reader.bool "retryable")
        (← Reader.string maxTransferErrorMessageLen "transfer error message")
  | _ => throw (.invalidValue "transfer message type")

/-- `decode_transfer`. -/
def decodeTransfer (messageType : MessageType) (limits : CodecLimits) : Reader TransferControl := do
  let message ← readTransfer messageType limits
  message.validate
  return message

/-- `encode_path`. -/
def encodePath : PathCheck → Bytes
  | .request transferId transactionId checkToken candidateId sendTimestampMillis =>
      [Writer.id transferId, Writer.id transactionId, Writer.bytesFixed checkToken,
        Writer.id candidateId, Writer.u64 sendTimestampMillis].flatten
  | .response transferId transactionId checkToken candidateId observedAddress
      receiveTimestampMillis =>
      [Writer.id transferId, Writer.id transactionId, Writer.bytesFixed checkToken,
        Writer.id candidateId, Writer.socketAddr observedAddress,
        Writer.u64 receiveTimestampMillis].flatten

/-- `decode_path`, which does not validate what it has read. -/
def decodePath (messageType : MessageType) : Reader PathCheck :=
  match messageType with
  | .pathCheckRequest =>
      return .request (← Reader.id "transfer id") (← Reader.id "transaction id")
        (← Reader.array 32 "check token") (← Reader.id "candidate id") (← Reader.u64)
  | .pathCheckResponse =>
      return .response (← Reader.id "transfer id") (← Reader.id "transaction id")
        (← Reader.array 32 "check token") (← Reader.id "candidate id") (← Reader.socketAddr)
        (← Reader.u64)
  | _ => throw (.invalidValue "path message type")

/-- `encode_body`. -/
def encodeBody (message : Message) (limits : CodecLimits) : Except ProtocolError Bytes :=
  match message with
  | .pairing message => encodePairing message limits
  | .transfer message => encodeTransfer message limits
  | .path message => .ok (encodePath message)

/-- `decode_body`. -/
def decodeBody (messageType : MessageType) (limits : CodecLimits) : Reader Message :=
  if toU8 messageType ≥ 40 then .path <$> decodePath messageType
  else if toU8 messageType ≥ 20 then .transfer <$> decodeTransfer messageType limits
  else .pairing <$> decodePairing messageType limits

/-! ## Messages -/

/-- The longest encoding of a message of the type. -/
def maxMessageLenOf (messageType : MessageType) (limits : CodecLimits) : Nat :=
  if messageType = .manifestItem then min limits.maxMessageLen maxManifestItemLen
  else limits.maxMessageLen

/-- `encode_message_with_limits`. -/
def encodeMessageWithLimits (message : Message) (requestId : UInt64) (flags : MessageFlags)
    (limits : CodecLimits) : Except ProtocolError Bytes := do
  validateLimits limits
  message.validate
  let body ← encodeBody message limits
  let totalLen := envelopeLen + body.length
  let maxMessageLen := maxMessageLenOf message.messageType limits
  if totalLen > maxMessageLen ∨ totalLen > u32Max then
    throw (.messageTooLarge (min maxMessageLen u32Max) totalLen)
  return [beBytes 4 totalLen, Writer.u8 (toU8 message.messageType), Writer.u8 protocolVersion,
    Writer.u16 flags.bits, Writer.u64 requestId, body].flatten

/-- The part of `decode_message_with_limits` that reads the envelope and the body. -/
def readMessage (length : Nat) (limits : CodecLimits) : Reader DecodedMessage := do
  let declaredLen := ofBe (← Reader.take 4 "u32")
  if declaredLen < envelopeLen then throw (.invalidValue "message length")
  if declaredLen > limits.maxMessageLen then
    throw (.messageTooLarge limits.maxMessageLen declaredLen)
  if declaredLen ≠ length then throw (.declaredLengthMismatch declaredLen length)
  let messageType ← (tryFrom (← Reader.u8) : Except ProtocolError MessageType)
  if messageType = .manifestItem ∧ declaredLen > maxManifestItemLen then
    throw (.messageTooLarge maxManifestItemLen declaredLen)
  let version ← Reader.u8
  if version ≠ protocolVersion then throw (.unsupportedVersion version)
  let flags ← MessageFlags.fromBits (← Reader.u16)
  let requestId ← Reader.u64
  let message ← decodeBody messageType limits
  return ⟨⟨messageType, version, flags, requestId⟩, message⟩

/-- `decode_message_with_limits`. -/
def decodeMessageWithLimits (bytes : Bytes) (limits : CodecLimits) :
    Except ProtocolError DecodedMessage := do
  validateLimits limits
  if bytes.length < envelopeLen then throw (.messageTooShort envelopeLen bytes.length)
  if bytes.length > limits.maxMessageLen then
    throw (.messageTooLarge limits.maxMessageLen bytes.length)
  let read : Reader DecodedMessage := do
    let decoded ← readMessage bytes.length limits
    Reader.finish
    return decoded
  return (← read bytes).1

end DartUdp.Protocol
