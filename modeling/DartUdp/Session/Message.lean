import DartUdp.Transfer.Types

/-!
# Control messages

What the two ends of a transfer tell each other, and the errors of the
session. Strings that came in from the peer are kept as their UTF-8 bytes; the
texts of errors are the literals of the source.
-/

namespace DartUdp.Session

open DartUdp.Lib DartUdp.Transfer

abbrev PathId := Transfer.Id

abbrev RelayId := Transfer.Id

def maxManifestFiles : Nat := 1000000

def protocolVersion : Nat := 1

inductive CryptoSuite where
  | insecureTesting
  | x25519ChaCha20Poly1305
deriving DecidableEq, Repr

inductive AcceptDecision where
  | accept
  | reject
deriving DecidableEq, Repr

inductive PathKind where
  | host
  | routedLan
  | reflexiveDirect
  | relay
deriving DecidableEq, Repr

inductive RelayCloseReason where
  | complete
  | cancelled
  | failed
  | expired
deriving DecidableEq, Repr

inductive FileRejectReason where
  | policy
  | alreadyExists
  | invalidPath
  | storageError
  | integrityError
deriving DecidableEq, Repr

inductive TransferErrorScope where
  | session
  | file
  | path
deriving DecidableEq, Repr

inductive TransferControl where
  | sessionHello (transferId : TransferId) (protocolVersion : Nat) (cryptoSuite : CryptoSuite)
      (manifestDigest : Digest) (resumeNamespace : Vector UInt8 16)
  | manifestBegin (fileCount totalSize : Nat) (manifestDigest : Digest)
  | manifestItem (fileId : FileId) (relativePath : Bytes) (size : Nat) (contentHash : Digest)
      (metadata : FileMetadata)
  | manifestEnd (manifestDigest : Digest)
  | receiveDecision (accepted : Bool) (overwritePolicy : OverwritePolicy)
      (targetRootLabel : Bytes)
  | resumeQuery (fileId : FileId) (contentHash : Digest) (size : Nat)
  | resumeState (fileId : FileId) (durableOffset checkpointId : Nat) (stateHash : Digest)
  | fileBegin (fileId : FileId) (dataStreamId baseOffset remainingSize : Nat)
      (contentHash : Digest)
  | checkpoint (fileId : FileId) (durableOffset checkpointId : Nat)
  | fileComplete (fileId : FileId) (finalSize : Nat) (contentHash : Digest)
  | fileRejected (fileId : FileId) (reason : FileRejectReason)
  | transferComplete (transferId : TransferId) (completedFiles totalSize : Nat)
  | transferError (scope : TransferErrorScope) (code : Nat) (retryable : Bool) (message : Bytes)
deriving DecidableEq, Repr

/-- The pairing messages a session sends or acts on. `other` stands for all the
messages between a client and the rendezvous server: a session sends none of
them and refuses them all alike. -/
inductive PairingControl where
  | candidateList (transferId : TransferId) (candidateDigest : Digest)
  | pathCheckAuthorization (transferId : TransferId) (checkToken : Bytes) (expiresAt : Nat)
  | pathSelected (transferId : TransferId) (pathId : PathId) (kind : PathKind)
      (rttMillis mtu : Nat)
  | relayOpen (transferId : TransferId) (relayId : RelayId) (relayTicket : Bytes)
  | relayClosed (transferId : TransferId) (reason : RelayCloseReason)
  | cancel (transferId : TransferId) (reasonCode : Nat)
  | other
deriving DecidableEq, Repr

inductive OutboundMessage where
  | pairing (message : PairingControl)
  | transfer (message : TransferControl)
deriving DecidableEq, Repr

inductive CoreError where
  | invalidState (operation state : String)
  | invalidRole (operation : String)
  | invalidTransferId
  | protocolVersionMismatch (expected actual : Nat)
  | cryptoSuiteMismatch
  | manifestRequired
  | manifestNotReady
  | manifestMismatch
  | manifestCountMismatch (expected actual : Nat)
  | manifestSizeMismatch (expected actual : Nat)
  | duplicateFile (fileId : FileId)
  | unknownFile (fileId : FileId)
  | invalidPath
  | invalidFileSize (fileId : FileId)
  | invalidOffset (fileId : FileId) (offset maximum : Nat)
  | invalidCheckpoint (fileId : FileId) (checkpointId current : Nat)
  | invalidStream (fileId : FileId) (streamId : Nat)
  | invalidDataOffset (fileId : FileId) (expected actual : Nat)
  | dataExceedsFile (fileId : FileId) (offset length maximum : Nat)
  | integrityMismatch (fileId : FileId)
  | activeFileLimit (maximum : Nat)
  | pathUnavailable
  | invalidPathTransition
  | duplicateControl
  | cancelled
  | channel (message : Bytes)
  | storage (message : Bytes)
deriving DecidableEq, Repr

end DartUdp.Session
