import Std.Data.TreeMap
import DartUdp.Lib.Prog
import DartUdp.Session.Manifest

/-!
# The transfer session

One end of a transfer: the offerer sends the files of its manifest, the
accepter receives them. Both are one `TransferSession`; what a call may do
depends on the role, on the state and on the files. A call that fails keeps
what it wrote before it failed.

The storage, the path selector and the channels are traits: what a call of
them answered comes in as an argument.
-/

namespace DartUdp.Session

open DartUdp.Lib DartUdp.Transfer

inductive SessionRole where
  | offerer
  | accepter
deriving DecidableEq, Repr

inductive SessionState where
  | new
  | awaitingHello
  | sendingManifest
  | receivingManifest
  | awaitingDecision
  | awaitingResume
  | sendingData
  | receivingData
  | awaitingTransferComplete
  | completed
  | rejected
  | cancelled
  | failed
deriving DecidableEq, Repr

def SessionState.name : SessionState → String
  | .new => "new"
  | .awaitingHello => "awaiting hello"
  | .sendingManifest => "sending manifest"
  | .receivingManifest => "receiving manifest"
  | .awaitingDecision => "awaiting decision"
  | .awaitingResume => "awaiting resume"
  | .sendingData => "sending data"
  | .receivingData => "receiving data"
  | .awaitingTransferComplete => "awaiting transfer complete"
  | .completed => "completed"
  | .rejected => "rejected"
  | .cancelled => "cancelled"
  | .failed => "failed"

/-- The `idle_timeout` is in milliseconds. -/
structure SessionConfig where
  maxParallelFiles : Nat := 2
  protocolVersion : Nat := Session.protocolVersion
  cryptoSuite : CryptoSuite := .x25519ChaCha20Poly1305
  firstDataStreamId : Nat := 1
  idleTimeout : Nat := 60000
deriving DecidableEq, Repr

/-- `SessionConfig::validate` answers `Ok`. -/
def SessionConfig.validate (config : SessionConfig) : Bool :=
  !(config.maxParallelFiles == 0 || config.firstDataStreamId == 0 || config.idleTimeout == 0)

structure DataChunk where
  fileId : FileId
  streamId : Nat
  offset : Nat
  bytes : Bytes
  fin : Bool
deriving DecidableEq, Repr

structure DurableState where
  durableOffset : Nat
  checkpointId : Nat
  stateHash : Digest
deriving DecidableEq, Repr

structure PathSelection where
  pathId : PathId
  kind : PathKind
  rttMillis : Nat
  mtu : Nat
deriving DecidableEq, Repr

inductive PathState where
  | unselected
  | direct (path : PathSelection)
  | relay (relayId : RelayId)
  | failed
deriving DecidableEq, Repr

inductive SessionEvent where
  | stateChanged (before after : SessionState)
  | dataReceived (fileId : FileId) (absoluteOffset : Nat) (bytes : Bytes) (fin : Bool)
  | duplicateData (fileId : FileId) (offset : Nat)
  | duplicateControl
  | checkpointed (fileId : FileId) (durableOffset checkpointId : Nat)
  | fileReadyToComplete (fileId : FileId)
  | fileCompleted (fileId : FileId)
  | transferCompleted
  | pathSelected (path : PathSelection)
  | pathFallback (relayId : RelayId)
deriving DecidableEq, Repr

structure FileRuntime where
  entry : ManifestEntry
  durableOffset : Nat := 0
  receivedOffset : Nat := 0
  checkpointId : Nat := 0
  stateHash : Digest
  activeStreamId : Option Nat := none
  baseOffset : Nat := 0
  sendOffset : Nat := 0
  finQueued : Bool := false
  awaitingFinish : Bool := false
  complete : Bool := false
deriving DecidableEq, Repr

structure ManifestAssembly where
  expectedCount : Nat
  expectedSize : Nat
  digest : Digest
  entries : List ManifestEntry
deriving DecidableEq, Repr

structure TransferSession where
  role : SessionRole
  transferId : TransferId
  config : SessionConfig
  state : SessionState := .new
  manifest : Option Manifest := none
  remoteManifestDigest : Option Digest := none
  receiveDecision : Option Bool := none
  assembly : Option ManifestAssembly := none
  files : Std.TreeMap FileId FileRuntime := ∅
  pendingResumes : Std.TreeMap FileId DurableState := ∅
  completedFiles : Nat := 0
  completedSize : Nat := 0
  nextStreamId : Nat := config.firstDataStreamId
  controls : List OutboundMessage := []
  data : List DataChunk := []
  path : PathState := .unselected
  lastActivityMillis : Nat := 0

/-- A method of the session: it fails in place. -/
abbrev SessionM := EStateM CoreError TransferSession

/-! ## Building blocks -/

/-- Set the state, and report it if it is another one. -/
def changeState (state : SessionState) : SessionM (List SessionEvent) := do
  let s ← get
  if s.state = state then return []
  set { s with state }
  return [.stateChanged s.state state]

def requireRole (role : SessionRole) (operation : String) : SessionM Unit := do
  if (← get).role ≠ role then throw (.invalidRole operation)

def checkTransferId (transferId : TransferId) : SessionM Unit := do
  if (← get).transferId ≠ transferId then throw .invalidTransferId

/-- `CoreError::state` with the state the session is in. -/
def stateError (operation : String) : SessionM (List SessionEvent) := do
  throw (.invalidState operation (← get).state.name)

def file (fileId : FileId) : SessionM FileRuntime := do
  match (← get).files[fileId]? with
  | some f => return f
  | none => throw (.unknownFile fileId)

/-- Write back what `file_mut` lent out. -/
def setFile (fileId : FileId) (f : FileRuntime) : SessionM Unit :=
  modify fun s => { s with files := s.files.insert fileId f }

def queueTransfer (message : TransferControl) : SessionM Unit :=
  modify fun s => { s with controls := s.controls ++ [.transfer message] }

def queuePairing (message : PairingControl) : SessionM Unit :=
  modify fun s => { s with controls := s.controls ++ [.pairing message] }

def queueTransfers (messages : List TransferControl) : SessionM Unit :=
  modify fun s => { s with controls := s.controls ++ messages.map .transfer }

def validateOffset (fileId : FileId) (offset maximum : Nat) : SessionM Unit := do
  if ¬ offset ≤ maximum then throw (.invalidOffset fileId offset maximum)

def TransferSession.activeFileCount (s : TransferSession) : Nat :=
  s.files.toList.countP fun entry => entry.2.activeStreamId.isSome

/-- `allocate_stream_id`: the last id of the range is never handed out. -/
def allocateStreamId : SessionM Nat := do
  let s ← get
  match checkedAdd s.nextStreamId 1 with
  | some next =>
      set { s with nextStreamId := next }
      return s.nextStreamId
  | none => throw (.invalidState "allocate data stream" "stream id exhausted")

/-! ## Creation -/

def FileRuntime.new (entry : ManifestEntry) (zeroDigest : Digest) : FileRuntime :=
  { entry, stateHash := zeroDigest }

/-- The map of the files of a manifest, none of them started. -/
def Manifest.runtimes (m : Manifest) : Std.TreeMap FileId FileRuntime :=
  Std.TreeMap.ofList <| m.entries.map fun entry =>
    (entry.fileId, FileRuntime.new entry ⟨m.digest.algorithm, .replicate 32 0⟩)

def TransferSession.installManifest (s : TransferSession) (m : Manifest) : TransferSession :=
  { s with files := m.runtimes, manifest := some m }

/-- `TransferSession::new_offerer`. -/
def newOfferer (transferId : TransferId) (manifest : Manifest) (config : SessionConfig) :
    Except CoreError TransferSession :=
  if config.validate then
    .ok (TransferSession.installManifest { role := .offerer, transferId, config } manifest)
  else .error (.invalidState "create session" "invalid configuration")

/-- `TransferSession::new_accepter`. -/
def newAccepter (transferId : TransferId) (config : SessionConfig) :
    Except CoreError TransferSession :=
  if config.validate then .ok { role := .accepter, transferId, config }
  else .error (.invalidState "create session" "invalid configuration")

/-! ## The offer -/

/-- The hello and the manifest, as `start_offerer` and `reconnect` send them. -/
def TransferSession.offer (s : TransferSession) (m : Manifest) : List TransferControl :=
  .sessionHello s.transferId s.config.protocolVersion s.config.cryptoSuite m.digest
      s.transferId ::
    .manifestBegin m.fileCount m.totalSize m.digest ::
    m.entries.map (fun e =>
      .manifestItem e.fileId e.relativePath e.size e.contentHash e.metadata) ++
    [.manifestEnd m.digest]

def startOfferer : SessionM (List SessionEvent) := do
  let s ← get
  match s.manifest with
  | none => throw .manifestRequired
  | some manifest =>
      let events ← changeState .sendingManifest
      queueTransfers (s.offer manifest)
      return events ++ (← changeState .awaitingDecision)

def start : SessionM (List SessionEvent) := do
  let s ← get
  if s.state ≠ .new then return ← stateError "start"
  match s.role with
  | .offerer => startOfferer
  | .accepter => changeState .awaitingHello

def acceptOffer (decision : AcceptDecision) (overwritePolicy : OverwritePolicy)
    (targetRootLabel : Bytes) : SessionM (List SessionEvent) := do
  requireRole .accepter "accept offer"
  let s ← get
  if s.state ≠ .awaitingDecision then return ← stateError "accept offer"
  let accepted := decision == .accept
  queueTransfer (.receiveDecision accepted overwritePolicy targetRootLabel)
  if !accepted then return ← changeState .rejected
  let events ← changeState .awaitingResume
  if s.files.isEmpty then
    queueTransfer (.transferComplete s.transferId 0 0)
    return events ++ (← changeState .completed)
  return events

def rejectOffer (reasonCode : Nat) : SessionM (List SessionEvent) := do
  requireRole .accepter "reject offer"
  let s ← get
  if s.state ≠ .awaitingDecision then return ← stateError "reject offer"
  queuePairing (.cancel s.transferId reasonCode)
  changeState .rejected

def handleSessionHello (transferId : TransferId) (protocolVersion : Nat)
    (cryptoSuite : CryptoSuite) (manifestDigest : Digest) : SessionM (List SessionEvent) := do
  requireRole .accepter "handle session hello"
  checkTransferId transferId
  let s ← get
  if s.remoteManifestDigest = some manifestDigest ∧ s.state ≠ .awaitingHello then
    return [.duplicateControl]
  if s.state ≠ .awaitingHello then return ← stateError "handle session hello"
  if protocolVersion ≠ s.config.protocolVersion then
    throw (.protocolVersionMismatch s.config.protocolVersion protocolVersion)
  if cryptoSuite ≠ s.config.cryptoSuite then throw .cryptoSuiteMismatch
  set { s with remoteManifestDigest := some manifestDigest }
  changeState .receivingManifest

def handleManifestBegin (fileCount totalSize : Nat) (digest : Digest) :
    SessionM (List SessionEvent) := do
  requireRole .accepter "handle manifest begin"
  let s ← get
  if s.state ≠ .receivingManifest then
    if s.manifest.any (·.digest = digest) then return [.duplicateControl]
    return ← stateError "handle manifest begin"
  if s.remoteManifestDigest ≠ some digest then throw .manifestMismatch
  if fileCount > maxManifestFiles then
    throw (.manifestCountMismatch maxManifestFiles fileCount)
  set { s with assembly := some ⟨fileCount, totalSize, digest, []⟩ }
  return []

def handleManifestItem (entry : ManifestEntry) : SessionM (List SessionEvent) := do
  requireRole .accepter "handle manifest item"
  let s ← get
  match s.assembly with
  | none =>
      if (s.manifest.bind (·.entry entry.fileId)) = some entry then return [.duplicateControl]
      throw .manifestNotReady
  | some assembly =>
      if assembly.entries.length ≥ assembly.expectedCount then
        throw (.manifestCountMismatch assembly.expectedCount (assembly.entries.length + 1))
      match assembly.entries.find? (·.fileId = entry.fileId) with
      | some existing =>
          if existing = entry then return [.duplicateControl]
          throw (.duplicateFile entry.fileId)
      | none =>
          set { s with assembly := some { assembly with entries := assembly.entries ++ [entry] } }
          return []

/-- The checks of `handle_manifest_end` on the assembly it took, and the
manifest made of it. -/
def ManifestAssembly.finish (assembly : ManifestAssembly) (digest : Digest) :
    Except CoreError Manifest :=
  if digest ≠ assembly.digest then .error .manifestMismatch
  else if assembly.entries.length ≠ assembly.expectedCount then
    .error (.manifestCountMismatch assembly.expectedCount assembly.entries.length)
  else
    match totalSize assembly.entries 0 with
    | .error e => .error e
    | .ok actualSize =>
        if actualSize ≠ assembly.expectedSize then
          .error (.manifestSizeMismatch assembly.expectedSize actualSize)
        else Manifest.new digest assembly.entries

def handleManifestEnd (digest : Digest) : SessionM (List SessionEvent) := do
  requireRole .accepter "handle manifest end"
  let s ← get
  match s.assembly with
  | none =>
      if s.manifest.any (·.digest = digest) then return [.duplicateControl]
      throw .manifestNotReady
  | some assembly =>
      -- the assembly is gone even if it turns out to be wrong
      set { s with assembly := none }
      match assembly.finish digest with
      | .error e => throw e
      | .ok manifest =>
          modify (·.installManifest manifest)
          changeState .awaitingDecision

def handleReceiveDecision (accepted : Bool) : SessionM (List SessionEvent) := do
  requireRole .offerer "handle receive decision"
  let s ← get
  if s.state ≠ .awaitingDecision then
    if s.receiveDecision = some accepted ∨ (s.state = .awaitingResume ∧ accepted = true) then
      return [.duplicateControl]
    return ← stateError "handle receive decision"
  set { s with receiveDecision := some accepted }
  if !accepted then return ← changeState .rejected
  match s.manifest with
  | none => throw .manifestRequired
  | some manifest =>
      queueTransfers (manifest.entries.map fun e => .resumeQuery e.fileId e.contentHash e.size)
      let events ← changeState .awaitingResume
      if s.files.isEmpty then
        return events ++ (← changeState .awaitingTransferComplete)
      return events

/-! ## Resuming -/

/-- The answer to a question about a file that is already complete. -/
def repeatComplete (f : FileRuntime) (fileId : FileId) : SessionM (List SessionEvent) := do
  let s ← get
  queueTransfers [.fileComplete fileId f.entry.size f.entry.contentHash,
    .transferComplete s.transferId s.completedFiles s.completedSize]
  return [.duplicateControl]

def handleResumeQuery (fileId : FileId) (contentHash : Digest) (size : Nat) :
    SessionM (List SessionEvent) := do
  requireRole .accepter "handle resume query"
  let f ← file fileId
  if f.entry.contentHash ≠ contentHash ∨ f.entry.size ≠ size then throw .manifestMismatch
  if f.complete then return ← repeatComplete f fileId
  let s ← get
  if ¬ (s.state = .awaitingResume ∨ s.state = .receivingData) then
    -- the second look at `complete` in the source cannot succeed
    if f.complete then return [.duplicateControl]
    return ← stateError "handle resume query"
  queueTransfer (.resumeState fileId f.durableOffset f.checkpointId f.stateHash)
  return []

def startFile (fileId : FileId) : SessionM (List SessionEvent) := do
  let streamId ← allocateStreamId
  let f ← file fileId
  if f.activeStreamId.isSome ∨ f.complete then return [.duplicateControl]
  setFile fileId
    { f with
      activeStreamId := some streamId
      baseOffset := f.durableOffset
      sendOffset := 0
      finQueued := f.entry.size = f.durableOffset }
  queueTransfer (.fileBegin fileId streamId f.durableOffset (f.entry.size - f.durableOffset)
    f.entry.contentHash)
  return []

/-- The loop of `start_pending_files`. Every turn takes one pending file, so the
fuel is their number. -/
def startPendingLoop : Nat → SessionM (List SessionEvent)
  | 0 => return []
  | fuel + 1 => do
      let s ← get
      if ¬ s.activeFileCount < s.config.maxParallelFiles then return []
      match s.pendingResumes.keys.head? with
      | none => return []
      | some fileId =>
          set { s with pendingResumes := s.pendingResumes.erase fileId }
          let events ← startFile fileId
          return events ++ (← startPendingLoop fuel)

def startPendingFiles : SessionM (List SessionEvent) := do
  let events ← startPendingLoop (← get).pendingResumes.size
  let s ← get
  if s.activeFileCount > 0 ∧ s.state = .awaitingResume then
    return events ++ (← changeState .sendingData)
  return events

def handleResumeState (fileId : FileId) (state : DurableState) :
    SessionM (List SessionEvent) := do
  requireRole .offerer "handle resume state"
  let s ← get
  if ¬ (s.state = .awaitingResume ∨ s.state = .sendingData ∨
      s.state = .awaitingTransferComplete) then
    return ← stateError "handle resume state"
  let f ← file fileId
  validateOffset fileId state.durableOffset f.entry.size
  if f.complete then return [.duplicateControl]
  if state.checkpointId < f.checkpointId ∨
      (state.checkpointId = f.checkpointId ∧ state.durableOffset ≠ f.durableOffset) then
    throw (.invalidCheckpoint fileId state.checkpointId f.checkpointId)
  if state.checkpointId = f.checkpointId ∧ state.durableOffset = f.durableOffset ∧
      state.stateHash = f.stateHash ∧ f.activeStreamId.isSome then
    return [.duplicateControl]
  setFile fileId
    { f with
      durableOffset := state.durableOffset
      checkpointId := state.checkpointId
      stateHash := state.stateHash }
  modify fun s => { s with pendingResumes := s.pendingResumes.insert fileId state }
  startPendingFiles

/-! ## Data -/

def queueData (fileId : FileId) (bytes : Bytes) (fin : Bool) : SessionM DataChunk := do
  requireRole .offerer "queue data"
  let f ← file fileId
  match f.activeStreamId with
  | none => throw (.invalidStream fileId 0)
  | some streamId =>
      let remaining := f.entry.size - f.baseOffset
      match checkedAdd f.sendOffset bytes.length with
      | none => throw (.dataExceedsFile fileId f.sendOffset bytes.length remaining)
      | some newOffset =>
          if newOffset > remaining ∨ (fin = true ∧ newOffset ≠ remaining) then
            throw (.dataExceedsFile fileId f.sendOffset bytes.length remaining)
          if f.finQueued then throw (.invalidState "queue data" "file already finished")
          setFile fileId { f with sendOffset := newOffset, finQueued := fin }
          let chunk : DataChunk := ⟨fileId, streamId, newOffset - bytes.length, bytes, fin⟩
          modify fun s => { s with data := s.data ++ [chunk] }
          return chunk

def handleFileBegin (fileId : FileId) (streamId baseOffset remainingSize : Nat)
    (contentHash : Digest) : SessionM (List SessionEvent) := do
  requireRole .accepter "handle file begin"
  let f ← file fileId
  if f.complete then return ← repeatComplete f fileId
  validateOffset fileId baseOffset f.entry.size
  if contentHash ≠ f.entry.contentHash ∨ remainingSize ≠ f.entry.size - baseOffset then
    throw .manifestMismatch
  match f.activeStreamId with
  | some activeStreamId =>
      if activeStreamId = streamId ∧ f.baseOffset = baseOffset then return [.duplicateControl]
      throw (.invalidStream fileId streamId)
  | none =>
      let s ← get
      if s.activeFileCount ≥ s.config.maxParallelFiles then
        throw (.activeFileLimit s.config.maxParallelFiles)
      if baseOffset ≠ f.durableOffset then
        throw (.invalidOffset fileId baseOffset f.durableOffset)
      setFile fileId
        { f with
          activeStreamId := some streamId
          baseOffset
          receivedOffset := baseOffset
          awaitingFinish := remainingSize = 0 }
      changeState .receivingData

/-- The tail of `handle_data`: the chunk is the next one of its file. -/
def acceptChunk (f : FileRuntime) (chunk : DataChunk) («end» : Nat) :
    SessionM (List SessionEvent) := do
  let f := { f with receivedOffset := f.baseOffset + «end» }
  setFile chunk.fileId f
  if chunk.fin ∧ f.receivedOffset ≠ f.entry.size then
    -- the offset has moved on all the same
    throw (.invalidOffset chunk.fileId f.receivedOffset f.entry.size)
  let f := { f with awaitingFinish := chunk.fin || f.awaitingFinish }
  setFile chunk.fileId f
  let event := .dataReceived chunk.fileId (f.baseOffset + chunk.offset) chunk.bytes chunk.fin
  if f.awaitingFinish then return [event, .fileReadyToComplete chunk.fileId]
  return [event]

def handleData (chunk : DataChunk) : SessionM (List SessionEvent) := do
  requireRole .accepter "handle data"
  let f ← file chunk.fileId
  match f.activeStreamId with
  | none => throw (.invalidStream chunk.fileId chunk.streamId)
  | some activeStreamId =>
      if activeStreamId ≠ chunk.streamId then
        throw (.invalidStream chunk.fileId chunk.streamId)
      let expected := f.receivedOffset - f.baseOffset
      let remaining := f.entry.size - f.baseOffset
      match checkedAdd chunk.offset chunk.bytes.length with
      | none => throw (.dataExceedsFile chunk.fileId chunk.offset chunk.bytes.length remaining)
      | some «end» =>
          if «end» > remaining then
            throw (.dataExceedsFile chunk.fileId chunk.offset chunk.bytes.length remaining)
          if chunk.offset < expected ∧ «end» ≤ expected then
            return [.duplicateData chunk.fileId chunk.offset]
          if chunk.offset ≠ expected then
            throw (.invalidDataOffset chunk.fileId expected chunk.offset)
          acceptChunk f chunk «end»

/-- The order a checkpoint has to keep, in `checkpoint`, `validate_checkpoint`,
`handle_remote_checkpoint` and `set_durable_state`. -/
def FileRuntime.staleCheckpoint (f : FileRuntime) (durableOffset checkpointId : Nat) : Prop :=
  checkpointId < f.checkpointId ∨ durableOffset < f.durableOffset ∨
    (checkpointId = f.checkpointId ∧ durableOffset ≠ f.durableOffset)

instance (f : FileRuntime) (durableOffset checkpointId : Nat) :
    Decidable (f.staleCheckpoint durableOffset checkpointId) := by
  unfold FileRuntime.staleCheckpoint
  infer_instance

def validateCheckpoint (fileId : FileId) (durableOffset checkpointId : Nat) : SessionM Unit := do
  let f ← file fileId
  validateOffset fileId durableOffset f.receivedOffset
  if f.staleCheckpoint durableOffset checkpointId then
    throw (.invalidCheckpoint fileId checkpointId f.checkpointId)

def checkpoint (fileId : FileId) (durableOffset checkpointId : Nat) :
    SessionM (List SessionEvent) := do
  requireRole .accepter "checkpoint"
  validateCheckpoint fileId durableOffset checkpointId
  let f ← file fileId
  if checkpointId = f.checkpointId ∧ durableOffset = f.durableOffset then
    return [.duplicateControl]
  setFile fileId { f with durableOffset, checkpointId }
  queueTransfer (.checkpoint fileId durableOffset checkpointId)
  return [.checkpointed fileId durableOffset checkpointId]

def handleRemoteCheckpoint (fileId : FileId) (durableOffset checkpointId : Nat) :
    SessionM (List SessionEvent) := do
  requireRole .offerer "handle checkpoint"
  let f ← file fileId
  if checkpointId = f.checkpointId then
    if durableOffset = f.durableOffset then return [.duplicateControl]
    throw (.invalidCheckpoint fileId checkpointId f.checkpointId)
  match checkedAdd f.baseOffset f.sendOffset with
  | none => throw (.invalidFileSize fileId)
  | some maximum =>
      validateOffset fileId durableOffset maximum
      if f.staleCheckpoint durableOffset checkpointId then
        throw (.invalidCheckpoint fileId checkpointId f.checkpointId)
      setFile fileId { f with durableOffset, checkpointId }
      return []

/-! ## Completion -/

/-- The checks of `complete_file` on a file that is not complete. -/
def checkCompletion (f : FileRuntime) (fileId : FileId) (finalSize : Nat)
    (contentHash : Digest) : SessionM Unit := do
  if f.awaitingFinish = false ∨ f.receivedOffset ≠ f.entry.size then
    throw (.invalidState "complete file" "file data is incomplete")
  if finalSize ≠ f.entry.size ∨ contentHash ≠ f.entry.contentHash then
    throw (.integrityMismatch fileId)
  if f.durableOffset ≠ f.entry.size then
    throw (.invalidOffset fileId f.durableOffset f.entry.size)

/-- Mark a file as complete and count it. -/
def markComplete (f : FileRuntime) (fileId : FileId) (finalSize : Nat) : SessionM Unit :=
  modify fun s =>
    { s with
      files := s.files.insert fileId { f with complete := true, activeStreamId := none }
      completedFiles := s.completedFiles + 1
      completedSize := s.completedSize + finalSize }

def completeFile (fileId : FileId) (finalSize : Nat) (contentHash : Digest) :
    SessionM (List SessionEvent) := do
  requireRole .accepter "complete file"
  let f ← file fileId
  if f.complete then return [.duplicateControl]
  checkCompletion f fileId finalSize contentHash
  markComplete f fileId finalSize
  queueTransfer (.fileComplete fileId finalSize contentHash)
  let s ← get
  if s.completedFiles = s.files.size then
    queueTransfer (.transferComplete s.transferId s.completedFiles s.completedSize)
    let events ← changeState .completed
    return .fileCompleted fileId :: events ++ [.transferCompleted]
  return [.fileCompleted fileId]

def handleFileCompleteAck (fileId : FileId) (finalSize : Nat) (contentHash : Digest) :
    SessionM (List SessionEvent) := do
  requireRole .offerer "handle file complete"
  let f ← file fileId
  if f.complete then return [.duplicateControl]
  if finalSize ≠ f.entry.size ∨ contentHash ≠ f.entry.contentHash then
    throw (.integrityMismatch fileId)
  let remaining := f.entry.size - f.baseOffset
  if f.sendOffset ≠ remaining ∨ (f.finQueued = false ∧ remaining ≠ 0) then
    throw (.invalidState "handle file complete" "data stream is incomplete")
  markComplete f fileId finalSize
  let events ← startPendingFiles
  let s ← get
  if s.completedFiles = s.files.size then
    return .fileCompleted fileId :: events ++ (← changeState .awaitingTransferComplete)
  return .fileCompleted fileId :: events

def handleFileRejected (fileId : FileId) (_reason : FileRejectReason) :
    SessionM (List SessionEvent) := do
  requireRole .offerer "handle file rejected"
  let _ ← file fileId
  changeState .failed

def handleTransferComplete (transferId : TransferId) (completedFiles totalSize : Nat) :
    SessionM (List SessionEvent) := do
  requireRole .offerer "handle transfer complete"
  checkTransferId transferId
  let s ← get
  if s.state = .completed then return [.duplicateControl]
  if s.state ≠ .awaitingTransferComplete ∨ completedFiles ≠ s.completedFiles ∨
      totalSize ≠ s.completedSize then
    return ← stateError "handle transfer complete"
  return (← changeState .completed) ++ [.transferCompleted]

/-! ## Reconnecting -/

/-- What `reconnect` does to a file that is not complete. -/
def FileRuntime.restart (role : SessionRole) (f : FileRuntime) : FileRuntime :=
  if f.complete then f
  else
    { f with
      activeStreamId := none
      sendOffset := 0
      finQueued := false
      awaitingFinish := false
      receivedOffset := if role = .accepter then f.durableOffset else f.receivedOffset }

/-- The `FileComplete` of every complete file, in the order of the ids. -/
def TransferSession.completions (s : TransferSession) : List TransferControl :=
  (s.files.toList.filter (·.2.complete)).map fun (_, f) =>
    .fileComplete f.entry.fileId f.entry.size f.entry.contentHash

/-- The queries of `reconnect`: all the files of the manifest that are not
complete. -/
def resumeQueries : List ManifestEntry → SessionM Unit
  | [] => pure ()
  | entry :: rest => do
      let f ← file entry.fileId
      if !f.complete then
        queueTransfer (.resumeQuery entry.fileId entry.contentHash entry.size)
      resumeQueries rest

def reconnectOfferer : SessionM Unit := do
  let s ← get
  match s.manifest with
  | none => throw .manifestRequired
  | some manifest =>
      queueTransfers (s.offer manifest)
      resumeQueries manifest.entries

def reconnect : SessionM (List SessionEvent) := do
  let s ← get
  if s.state = .completed ∧ s.role = .accepter then
    set { s with controls := [], data := [] }
    queueTransfers (s.completions ++
      [.transferComplete s.transferId s.completedFiles s.completedSize])
    return []
  if s.state = .completed ∨ s.state = .rejected ∨ s.state = .cancelled then
    return ← stateError "reconnect"
  set
    { s with
      data := []
      pendingResumes := ∅
      files := s.files.map fun _ (f : FileRuntime) => f.restart s.role }
  if s.role = .offerer then reconnectOfferer
  changeState .awaitingResume

def handleTransferError (_scope : TransferErrorScope) (_code : Nat) (retryable : Bool)
    (_message : Bytes) : SessionM (List SessionEvent) :=
  if retryable then reconnect else changeState .failed

/-! ## Dispatch -/

def handleControl : TransferControl → SessionM (List SessionEvent)
  | .sessionHello transferId version suite digest _ =>
      handleSessionHello transferId version suite digest
  | .manifestBegin fileCount totalSize digest => handleManifestBegin fileCount totalSize digest
  | .manifestItem fileId relativePath size contentHash metadata =>
      match ManifestEntry.new fileId relativePath size contentHash metadata with
      | .error e => throw e
      | .ok entry => handleManifestItem entry
  | .manifestEnd digest => handleManifestEnd digest
  | .receiveDecision accepted _ _ => handleReceiveDecision accepted
  | .resumeQuery fileId contentHash size => handleResumeQuery fileId contentHash size
  | .resumeState fileId durableOffset checkpointId stateHash =>
      handleResumeState fileId ⟨durableOffset, checkpointId, stateHash⟩
  | .fileBegin fileId streamId baseOffset remainingSize contentHash =>
      handleFileBegin fileId streamId baseOffset remainingSize contentHash
  | .checkpoint fileId durableOffset checkpointId =>
      handleRemoteCheckpoint fileId durableOffset checkpointId
  | .fileComplete fileId finalSize contentHash =>
      handleFileCompleteAck fileId finalSize contentHash
  | .fileRejected fileId reason => handleFileRejected fileId reason
  | .transferComplete transferId completedFiles totalSize =>
      handleTransferComplete transferId completedFiles totalSize
  | .transferError scope code retryable message =>
      handleTransferError scope code retryable message

def handleControlWithFlags (message : TransferControl) (errorFlag : Bool) :
    SessionM (List SessionEvent) := do
  if errorFlag then
    throw (.invalidState "handle control" "error flag requires an error message")
  handleControl message

def handlePairing : PairingControl → SessionM (List SessionEvent)
  | .pathSelected transferId pathId kind rttMillis mtu => do
      checkTransferId transferId
      let s ← get
      if let .relay _ := s.path then throw .invalidPathTransition
      set { s with path := .direct ⟨pathId, kind, rttMillis, mtu⟩ }
      return [.pathSelected ⟨pathId, kind, rttMillis, mtu⟩]
  | .relayOpen transferId relayId _ => do
      checkTransferId transferId
      modify fun s => { s with path := .relay relayId }
      return [.pathFallback relayId]
  | .relayClosed transferId reason => do
      checkTransferId transferId
      let s ← get
      match s.path with
      | .relay _ =>
          set { s with path := .failed }
          if reason = .failed then changeState .failed else return []
      | _ => throw .invalidPathTransition
  | .cancel transferId _ => do
      checkTransferId transferId
      changeState .cancelled
  | _ => throw .invalidPathTransition

/-! ## Through the storage -/

def handleDataWithStorage (chunk : DataChunk) (written : Except CoreError Unit) :
    SessionM (List SessionEvent) := do
  let _ ← file chunk.fileId
  let events ← handleData chunk
  if events.any fun | .dataReceived .. => true | _ => false then
    match written with
    | .error e =>
        modify fun s => { s with state := .failed }
        throw e
    | .ok () => return events
  return events

def setDurableState (fileId : FileId) (state : DurableState) : SessionM Unit := do
  let f ← file fileId
  validateOffset fileId state.durableOffset f.entry.size
  if f.staleCheckpoint state.durableOffset state.checkpointId then
    throw (.invalidCheckpoint fileId state.checkpointId f.checkpointId)
  setFile fileId
    { f with
      durableOffset := state.durableOffset
      checkpointId := state.checkpointId
      stateHash := state.stateHash }

def respondToResumeQueryWithStorage (fileId : FileId) (contentHash : Digest) (size : Nat)
    (stored : Except CoreError DurableState) : SessionM (List SessionEvent) := do
  match stored with
  | .error e => throw e
  | .ok state =>
      setDurableState fileId state
      handleResumeQuery fileId contentHash size

def checkpointWithStorage (fileId : FileId) (durableOffset checkpointId : Nat)
    (stateHash : Digest) (stored : Except CoreError Unit) : SessionM (List SessionEvent) := do
  validateCheckpoint fileId durableOffset checkpointId
  match stored with
  | .error e => throw e
  | .ok () =>
      let f ← file fileId
      setFile fileId { f with stateHash }
      checkpoint fileId durableOffset checkpointId

def completeFileWithStorage (fileId : FileId) (finalSize : Nat) (contentHash : Digest)
    (stored : Except CoreError Unit) : SessionM (List SessionEvent) := do
  let f ← file fileId
  if !f.complete then checkCompletion f fileId finalSize contentHash
  match stored with
  | .error e => throw e
  | .ok () => completeFile fileId finalSize contentHash

/-! ## Paths and channels -/

def selectPath (selected : Except CoreError PathSelection) : SessionM (List SessionEvent) := do
  match selected with
  | .error e => throw e
  | .ok path =>
      let s ← get
      set { s with path := .direct path }
      queuePairing (.pathSelected s.transferId path.pathId path.kind path.rttMillis path.mtu)
      return [.pathSelected path]

def fallbackToRelay (relay : Except CoreError (RelayId × Bytes)) :
    SessionM (List SessionEvent) := do
  let s ← get
  if s.path = .unselected then throw .invalidPathTransition
  if let .relay _ := s.path then throw .invalidPathTransition
  match relay with
  | .error e => throw e
  | .ok (relayId, relayTicket) =>
      set { s with path := .relay relayId }
      queuePairing (.relayOpen s.transferId relayId relayTicket)
      return [.pathFallback relayId]

/-- Send from the front of a queue until the channel refuses; `refuses n` is its
answer to the `n`-th message. -/
def sendQueue {α : Type} (refuses : Nat → Option Bytes) : List α → Nat → List α × Option Bytes
  | [], _ => ([], none)
  | message :: rest, n =>
      match refuses n with
      | none => sendQueue refuses rest (n + 1)
      | some error => (message :: rest, some error)

/-- `TransferSession::flush`. -/
def flush (control data : Nat → Option Bytes) : SessionM Unit := do
  let s ← get
  let (controls, refused) := sendQueue control s.controls 0
  set { s with controls }
  match refused with
  | some error => throw (.channel error)
  | none =>
      let (chunks, refused) := sendQueue data s.data 0
      modify fun s => { s with data := chunks }
      match refused with
      | some error => throw (.channel error)
      | none => return ()

def drainControl : SessionM (List OutboundMessage) := do
  let s ← get
  set { s with controls := [] }
  return s.controls

def drainData : SessionM (List DataChunk) := do
  let s ← get
  set { s with data := [] }
  return s.data

def markPathFailed : SessionM (List SessionEvent) := do
  modify fun s => { s with path := .failed }
  return []

def touch (nowMillis : Nat) : SessionM Unit :=
  modify fun s => { s with lastActivityMillis := nowMillis }

def TransferSession.isIdleExpired (s : TransferSession) (nowMillis : Nat) : Bool :=
  nowMillis - s.lastActivityMillis ≥ s.config.idleTimeout

def resetForTest : SessionM Unit :=
  modify fun s =>
    { s with controls := [], data := [], path := .unselected, lastActivityMillis := 0 }

def sendCancel (reasonCode : Nat) : SessionM Unit := do
  let s ← get
  queuePairing (.cancel s.transferId reasonCode)
  modify fun s => { s with state := .cancelled }

end DartUdp.Session
