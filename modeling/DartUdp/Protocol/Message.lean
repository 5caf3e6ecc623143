import DartUdp.Protocol.Types

/-!
# The messages of the control protocol

The messages of pairing, of a transfer and of the path checks, the type code of
each, and the checks a message has to pass on its own.
-/

namespace DartUdp.Protocol

open DartUdp.Lib
open DartUdp.Transfer (TransferId FileId Digest OverwritePolicy maxPathLen)
open DartUdp.Session (PathId RelayId CryptoSuite AcceptDecision PathKind RelayCloseReason
  FileRejectReason TransferErrorScope maxManifestFiles)

def maxCandidates : Nat := 64

def maxDisplayNameLen : Nat := 256

def maxIdentityHintLen : Nat := 256

def maxRootLabelLen : Nat := 256

def maxTicketLen : Nat := 4096

def maxTransferErrorMessageLen : Nat := 1024

/-! ## Messages -/

inductive MessageType where
  | createPairing
  | pairingCreated
  | joinPairing
  | pairingJoined
  | offerReady
  | acceptOffer
  | candidateList
  | pathCheckAuthorization
  | pathSelected
  | relayOpen
  | relayClosed
  | cancel
  | resumeTicket
  | resumeTransfer
  | resumeAccepted
  | peerReconnected
  | sessionHello
  | manifestBegin
  | manifestItem
  | manifestEnd
  | receiveDecision
  | resumeQuery
  | resumeState
  | fileBegin
  | checkpoint
  | fileComplete
  | fileRejected
  | transferComplete
  | transferError
  | pathCheckRequest
  | pathCheckResponse
deriving DecidableEq, Repr

instance : ByteEnum MessageType where
  toU8
    | .createPairing => 1
    | .pairingCreated => 2
    | .joinPairing => 3
    | .pairingJoined => 4
    | .offerReady => 5
    | .acceptOffer => 6
    | .candidateList => 7
    | .pathCheckAuthorization => 8
    | .pathSelected => 9
    | .relayOpen => 10
    | .relayClosed => 11
    | .cancel => 12
    | .resumeTicket => 13
    | .resumeTransfer => 14
    | .resumeAccepted => 15
    | .peerReconnected => 16
    | .sessionHello => 20
    | .manifestBegin => 21
    | .manifestItem => 22
    | .manifestEnd => 23
    | .receiveDecision => 24
    | .resumeQuery => 25
    | .resumeState => 26
    | .fileBegin => 27
    | .checkpoint => 28
    | .fileComplete => 29
    | .fileRejected => 30
    | .transferComplete => 31
    | .transferError => 32
    | .pathCheckRequest => 40
    | .pathCheckResponse => 41
  tryFrom
    | 1 => .ok .createPairing
    | 2 => .ok .pairingCreated
    | 3 => .ok .joinPairing
    | 4 => .ok .pairingJoined
    | 5 => .ok .offerReady
    | 6 => .ok .acceptOffer
    | 7 => .ok .candidateList
    | 8 => .ok .pathCheckAuthorization
    | 9 => .ok .pathSelected
    | 10 => .ok .relayOpen
    | 11 => .ok .relayClosed
    | 12 => .ok .cancel
    | 13 => .ok .resumeTicket
    | 14 => .ok .resumeTransfer
    | 15 => .ok .resumeAccepted
    | 16 => .ok .peerReconnected
    | 20 => .ok .sessionHello
    | 21 => .ok .manifestBegin
    | 22 => .ok .manifestItem
    | 23 => .ok .manifestEnd
    | 24 => .ok .receiveDecision
    | 25 => .ok .resumeQuery
    | 26 => .ok .resumeState
    | 27 => .ok .fileBegin
    | 28 => .ok .checkpoint
    | 29 => .ok .fileComplete
    | 30 => .ok .fileRejected
    | 31 => .ok .transferComplete
    | 32 => .ok .transferError
    | 40 => .ok .pathCheckRequest
    | 41 => .ok .pathCheckResponse
    | value => .error (.unknownMessageType value)
  tryFrom_toU8 value := by cases value <;> rfl
  toU8_of_tryFrom h := by split at h <;> cases h <;> rfl

structure Candidate where
  id : CandidateId
  kind : CandidateKind
  address : Option SocketAddr
  priority : UInt16
  interfaceIndex : Option UInt32
deriving DecidableEq, Repr

structure FileMetadata where
  modifiedTimeUnixSeconds : Option Int64
  mode : Option UInt32
deriving DecidableEq, Repr

inductive PairingControl where
  | createPairing (clientInstanceId : ClientInstanceId) (capability : Capability)
      (requestedTtl : UInt32) (clientEphemeralKey : Vector UInt8 32)
  | pairingCreated (pairingId : PairingId) (pairingCode : PairingCode) (expiresAt : UInt64)
      (serverSessionTicket : SessionTicket)
  | joinPairing (pairingCode : PairingCode) (clientInstanceId : ClientInstanceId)
      (clientEphemeralKey : Vector UInt8 32)
  | pairingJoined (pairingId : PairingId) (offererIdentityHint accepterIdentityHint : Text)
      (peerControlTicket : SessionTicket)
  | offerReady (transferId : TransferId) (manifestDigest : Digest) (fileCount totalSize : UInt64)
      (senderDisplayName : Text)
  | acceptOffer (transferId : TransferId) (decision : AcceptDecision) (receiverRootPolicy : Text)
  | candidateList (transferId : TransferId) (candidates : List Candidate) (candidateDigest : Digest)
  | pathCheckAuthorization (transferId : TransferId) (checkToken : CheckToken) (expiresAt : UInt64)
  | pathSelected (transferId : TransferId) (pathId : PathId) (kind : PathKind)
      (rttMillis : UInt64) (mtu : UInt16)
  | relayOpen (transferId : TransferId) (relayId : RelayId) (relayTicket : SessionTicket)
  | relayClosed (transferId : TransferId) (reason : RelayCloseReason)
  | cancel (transferId : TransferId) (reasonCode : UInt16)
  | resumeTicket (pairingId : PairingId) (transferId : TransferId) (role : TransferRole)
      (manifestDigest : Digest) (expiresAt : UInt64) (resumeTicket : SessionTicket)
  | resumeTransfer (pairingId : PairingId) (transferId : TransferId) (role : TransferRole)
      (clientInstanceId : ClientInstanceId) (resumeTicket : SessionTicket)
  | resumeAccepted (pairingId : PairingId) (transferId : TransferId) (role : TransferRole)
      (manifestDigest : Digest) (expiresAt : UInt64)
  | peerReconnected (transferId : TransferId) (role : TransferRole)
deriving DecidableEq

inductive TransferControl where
  | sessionHello (transferId : TransferId) (protocolVersion : UInt8) (cryptoSuite : CryptoSuite)
      (manifestDigest : Digest) (resumeNamespace : Vector UInt8 16)
  | manifestBegin (fileCount totalSize : UInt64) (manifestDigest : Digest)
  | manifestItem (fileId : FileId) (relativePath : Text) (size : UInt64) (contentHash : Digest)
      (metadata : FileMetadata)
  | manifestEnd (manifestDigest : Digest)
  | receiveDecision (accepted : Bool) (overwritePolicy : OverwritePolicy) (targetRootLabel : Text)
  | resumeQuery (fileId : FileId) (contentHash : Digest) (size : UInt64)
  | resumeState (fileId : FileId) (durableOffset checkpointId : UInt64) (stateHash : Digest)
  | fileBegin (fileId : FileId) (dataStreamId baseOffset remainingSize : UInt64)
      (contentHash : Digest)
  | checkpoint (fileId : FileId) (durableOffset checkpointId : UInt64)
  | fileComplete (fileId : FileId) (finalSize : UInt64) (contentHash : Digest)
  | fileRejected (fileId : FileId) (reason : FileRejectReason)
  | transferComplete (transferId : TransferId) (completedFiles totalSize : UInt64)
  | transferError (scope : TransferErrorScope) (code : UInt32) (retryable : Bool) (message : Text)
deriving DecidableEq

inductive PathCheck where
  | request (transferId : TransferId) (transactionId : TransactionId) (checkToken : CheckToken)
      (candidateId : CandidateId) (sendTimestampMillis : UInt64)
  | response (transferId : TransferId) (transactionId : TransactionId) (checkToken : CheckToken)
      (candidateId : CandidateId) (observedAddress : SocketAddr) (receiveTimestampMillis : UInt64)
deriving DecidableEq

inductive Message where
  | pairing (message : PairingControl)
  | transfer (message : TransferControl)
  | path (message : PathCheck)
deriving DecidableEq

def PairingControl.messageType : PairingControl → MessageType
  | createPairing .. => .createPairing
  | pairingCreated .. => .pairingCreated
  | joinPairing .. => .joinPairing
  | pairingJoined .. => .pairingJoined
  | offerReady .. => .offerReady
  | acceptOffer .. => .acceptOffer
  | candidateList .. => .candidateList
  | pathCheckAuthorization .. => .pathCheckAuthorization
  | pathSelected .. => .pathSelected
  | relayOpen .. => .relayOpen
  | relayClosed .. => .relayClosed
  | cancel .. => .cancel
  | resumeTicket .. => .resumeTicket
  | resumeTransfer .. => .resumeTransfer
  | resumeAccepted .. => .resumeAccepted
  | peerReconnected .. => .peerReconnected

def TransferControl.messageType : TransferControl → MessageType
  | sessionHello .. => .sessionHello
  | manifestBegin .. => .manifestBegin
  | manifestItem .. => .manifestItem
  | manifestEnd .. => .manifestEnd
  | receiveDecision .. => .receiveDecision
  | resumeQuery .. => .resumeQuery
  | resumeState .. => .resumeState
  | fileBegin .. => .fileBegin
  | checkpoint .. => .checkpoint
  | fileComplete .. => .fileComplete
  | fileRejected .. => .fileRejected
  | transferComplete .. => .transferComplete
  | transferError .. => .transferError

def PathCheck.messageType : PathCheck → MessageType
  | request .. => .pathCheckRequest
  | response .. => .pathCheckResponse

def Message.messageType : Message → MessageType
  | pairing message => message.messageType
  | transfer message => message.messageType
  | path message => message.messageType

/-! ## The checks on a message -/

/-- Both the validation and the codec refuse a list that is too long. -/
def checkCount (field : String) (maximum actual : Nat) : Except ProtocolError Unit :=
  if actual > maximum then .error (.tooManyItems field maximum actual) else .ok ()

/-- `validate_string`. -/
def validateString (value : Text) (maximum : Nat) (field : String) : Except ProtocolError Unit :=
  if value.bytes.length > maximum ∨ value.bytes.length > 0xffff then
    .error (.fieldTooLarge field (min maximum 0xffff) value.bytes.length)
  else .ok ()

/-- `validate_code`. -/
def validateCode (code : PairingCode) : Except ProtocolError Unit := do
  discard (PairingCode.parse code.bytes)

/-- `validate_ticket`. -/
def validateTicket (ticket : SessionTicket) : Except ProtocolError Unit :=
  if ticket.length > maxTicketLen then
    .error (.fieldTooLarge "session ticket" maxTicketLen ticket.length)
  else .ok ()

/-- `validate_non_empty_ticket`. -/
def validateNonEmptyTicket (ticket : SessionTicket) : Except ProtocolError Unit := do
  validateTicket ticket
  if ticket.isEmpty then throw (.invalidValue "resume ticket")

/-- `Candidate::validate`. -/
def Candidate.validate (candidate : Candidate) : Except ProtocolError Unit :=
  if candidate.kind = .relay then
    if candidate.address.isSome then .error (.invalidValue "relay candidate address") else .ok ()
  else
    match candidate.address with
    | none => .error (.invalidValue "candidate address")
    | some address =>
        if address.unusable then .error (.invalidValue "candidate address") else .ok ()

/-- `validate_candidates`. -/
def validateCandidates (candidates : List Candidate) : Except ProtocolError Unit := do
  checkCount "candidates" maxCandidates candidates.length
  candidates.forM Candidate.validate

/-- `PairingControl::validate`. -/
def PairingControl.validate : PairingControl → Except ProtocolError Unit
  | pairingCreated _ pairingCode _ serverSessionTicket => do
      validateTicket serverSessionTicket
      validateCode pairingCode
  | pairingJoined _ offererIdentityHint accepterIdentityHint peerControlTicket => do
      validateString offererIdentityHint maxIdentityHintLen "offerer identity"
      validateString accepterIdentityHint maxIdentityHintLen "accepter identity"
      validateTicket peerControlTicket
  | offerReady _ _ fileCount _ senderDisplayName => do
      checkCount "file_count" maxManifestFiles fileCount.toNat
      validateString senderDisplayName maxDisplayNameLen "sender display name"
  | acceptOffer _ _ receiverRootPolicy =>
      validateString receiverRootPolicy maxRootLabelLen "receiver root policy"
  | candidateList _ candidates _ => validateCandidates candidates
  | relayOpen _ _ relayTicket => validateTicket relayTicket
  | resumeTicket _ _ _ _ _ ticket => validateNonEmptyTicket ticket
  | resumeTransfer _ _ _ _ ticket => validateNonEmptyTicket ticket
  | _ => .ok ()

/-- `TransferControl::validate`. -/
def TransferControl.validate : TransferControl → Except ProtocolError Unit
  | manifestBegin fileCount _ _ => checkCount "file_count" maxManifestFiles fileCount.toNat
  | manifestItem _ relativePath _ _ _ => validateString relativePath maxPathLen "relative path"
  | receiveDecision _ _ targetRootLabel =>
      validateString targetRootLabel maxRootLabelLen "target root label"
  | transferError _ _ _ message =>
      validateString message maxTransferErrorMessageLen "transfer error message"
  | _ => .ok ()

/-- `PathCheck::validate`. -/
def PathCheck.validate : PathCheck → Except ProtocolError Unit
  | request .. => .ok ()
  | response _ _ _ _ observedAddress _ =>
      if observedAddress.unusable then .error (.invalidValue "path check observed address")
      else .ok ()

/-- `Message::validate`. -/
def Message.validate : Message → Except ProtocolError Unit
  | pairing message => message.validate
  | transfer message => message.validate
  | path message => message.validate

end DartUdp.Protocol
