import DartUdp.Lib.Panic
import DartUdp.Session.Run

/-!
# The arithmetic of a session on the machine

The differences of two offsets, the offsets a chunk moves and the two counters
are plain `u64` operations in the source. Here every method that has one is
written with it, and so is every method that calls one of these. All the others
are taken as they are; the one sum among them is the length of a list in memory
plus one, in an error.
-/

namespace DartUdp.Session.Panics

open DartUdp.Lib DartUdp.Transfer

abbrev PanicM := EStateM (Halt CoreError) TransferSession

def startFile (fileId : FileId) : PanicM (List SessionEvent) := do
  let streamId ← safe allocateStreamId
  let f ← safe (file fileId)
  if f.activeStreamId.isSome ∨ f.complete then return [.duplicateControl]
  safe (setFile fileId
    { f with
      activeStreamId := some streamId
      baseOffset := f.durableOffset
      sendOffset := 0
      finQueued := f.entry.size = f.durableOffset })
  let remainingSize ← plainSub f.entry.size f.durableOffset
  safe (queueTransfer (.fileBegin fileId streamId f.durableOffset remainingSize
    f.entry.contentHash))
  return []

def startPendingLoop : Nat → PanicM (List SessionEvent)
  | 0 => return []
  | fuel + 1 => do
      let s ← get
      if ¬ s.activeFileCount < s.config.maxParallelFiles then return []
      match s.pendingResumes.keys.head? with
      | none => return []
      | some fileId =>
          set { s with pendingResumes := s.pendingResumes.erase fileId }
          let events ← startFile fileId
          return events ++ (← startPendingLoop fuel)

def startPendingFiles : PanicM (List SessionEvent) := do
  let events ← startPendingLoop (← get).pendingResumes.size
  let s ← get
  if s.activeFileCount > 0 ∧ s.state = .awaitingResume then
    return events ++ (← safe (changeState .sendingData))
  return events

def handleResumeState (fileId : FileId) (state : DurableState) : PanicM (List SessionEvent) := do
  safe (requireRole .offerer "handle resume state")
  let s ← get
  if ¬ (s.state = .awaitingResume ∨ s.state = .sendingData ∨
      s.state = .awaitingTransferComplete) then
    return ← safe (stateError "handle resume state")
  let f ← safe (file fileId)
  safe (validateOffset fileId state.durableOffset f.entry.size)
  if f.complete then return [.duplicateControl]
  if state.checkpointId < f.checkpointId ∨
      (state.checkpointId = f.checkpointId ∧ state.durableOffset ≠ f.durableOffset) then
    throw (.error (.invalidCheckpoint fileId state.checkpointId f.checkpointId))
  if state.checkpointId = f.checkpointId ∧ state.durableOffset = f.durableOffset ∧
      state.stateHash = f.stateHash ∧ f.activeStreamId.isSome then
    return [.duplicateControl]
  safe (setFile fileId
    { f with
      durableOffset := state.durableOffset
      checkpointId := state.checkpointId
      stateHash := state.stateHash })
  safe (modify fun s => { s with pendingResumes := s.pendingResumes.insert fileId state })
  startPendingFiles

def queueData (fileId : FileId) (bytes : Bytes) (fin : Bool) : PanicM DataChunk := do
  safe (requireRole .offerer "queue data")
  let f ← safe (file fileId)
  match f.activeStreamId with
  | none => throw (.error (.invalidStream fileId 0))
  | some streamId =>
      let remaining ← plainSub f.entry.size f.baseOffset
      match checkedAdd f.sendOffset bytes.length with
      | none => throw (.error (.dataExceedsFile fileId f.sendOffset bytes.length remaining))
      | some newOffset =>
          if newOffset > remaining ∨ (fin = true ∧ newOffset ≠ remaining) then
            throw (.error (.dataExceedsFile fileId f.sendOffset bytes.length remaining))
          if f.finQueued then throw (.error (.invalidState "queue data" "file already finished"))
          safe (setFile fileId { f with sendOffset := newOffset, finQueued := fin })
          let offset ← plainSub newOffset bytes.length
          let chunk : DataChunk := ⟨fileId, streamId, offset, bytes, fin⟩
          safe (modify fun s => { s with data := s.data ++ [chunk] })
          return chunk

def handleFileBegin (fileId : FileId) (streamId baseOffset remainingSize : Nat)
    (contentHash : Digest) : PanicM (List SessionEvent) := do
  safe (requireRole .accepter "handle file begin")
  let f ← safe (file fileId)
  if f.complete then return ← safe (repeatComplete f fileId)
  safe (validateOffset fileId baseOffset f.entry.size)
  let expected ← plainSub f.entry.size baseOffset
  if contentHash ≠ f.entry.contentHash ∨ remainingSize ≠ expected then
    throw (.error .manifestMismatch)
  match f.activeStreamId with
  | some activeStreamId =>
      if activeStreamId = streamId ∧ f.baseOffset = baseOffset then return [.duplicateControl]
      throw (.error (.invalidStream fileId streamId))
  | none =>
      let s ← get
      if s.activeFileCount ≥ s.config.maxParallelFiles then
        throw (.error (.activeFileLimit s.config.maxParallelFiles))
      if baseOffset ≠ f.durableOffset then
        throw (.error (.invalidOffset fileId baseOffset f.durableOffset))
      safe (setFile fileId
        { f with
          activeStreamId := some streamId
          baseOffset
          receivedOffset := baseOffset
          awaitingFinish := remainingSize = 0 })
      safe (changeState .receivingData)

def acceptChunk (f : FileRuntime) (chunk : DataChunk) («end» : Nat) :
    PanicM (List SessionEvent) := do
  let receivedOffset ← plainAdd f.baseOffset «end»
  let f := { f with receivedOffset }
  safe (setFile chunk.fileId f)
  if chunk.fin ∧ f.receivedOffset ≠ f.entry.size then
    throw (.error (.invalidOffset chunk.fileId f.receivedOffset f.entry.size))
  let f := { f with awaitingFinish := chunk.fin || f.awaitingFinish }
  safe (setFile chunk.fileId f)
  let absoluteOffset ← plainAdd f.baseOffset chunk.offset
  let event := .dataReceived chunk.fileId absoluteOffset chunk.bytes chunk.fin
  if f.awaitingFinish then return [event, .fileReadyToComplete chunk.fileId]
  return [event]

def handleData (chunk : DataChunk) : PanicM (List SessionEvent) := do
  safe (requireRole .accepter "handle data")
  let f ← safe (file chunk.fileId)
  match f.activeStreamId with
  | none => throw (.error (.invalidStream chunk.fileId chunk.streamId))
  | some activeStreamId =>
      if activeStreamId ≠ chunk.streamId then
        throw (.error (.invalidStream chunk.fileId chunk.streamId))
      let expected ← plainSub f.receivedOffset f.baseOffset
      let remaining ← plainSub f.entry.size f.baseOffset
      match checkedAdd chunk.offset chunk.bytes.length with
      | none =>
          throw (.error (.dataExceedsFile chunk.fileId chunk.offset chunk.bytes.length remaining))
      | some «end» =>
          if «end» > remaining then
            throw (.error
              (.dataExceedsFile chunk.fileId chunk.offset chunk.bytes.length remaining))
          if chunk.offset < expected ∧ «end» ≤ expected then
            return [.duplicateData chunk.fileId chunk.offset]
          if chunk.offset ≠ expected then
            throw (.error (.invalidDataOffset chunk.fileId expected chunk.offset))
          acceptChunk f chunk «end»

def markComplete (f : FileRuntime) (fileId : FileId) (finalSize : Nat) : PanicM Unit := do
  let s ← get
  let completedFiles ← plainAdd s.completedFiles 1
  let completedSize ← plainAdd s.completedSize finalSize
  set
    { s with
      files := s.files.insert fileId { f with complete := true, activeStreamId := none }
      completedFiles, completedSize }

def completeFile (fileId : FileId) (finalSize : Nat) (contentHash : Digest) :
    PanicM (List SessionEvent) := do
  safe (requireRole .accepter "complete file")
  let f ← safe (file fileId)
  if f.complete then return [.duplicateControl]
  safe (checkCompletion f fileId finalSize contentHash)
  markComplete f fileId finalSize
  safe (queueTransfer (.fileComplete fileId finalSize contentHash))
  let s ← get
  if s.completedFiles = s.files.size then
    safe (queueTransfer (.transferComplete s.transferId s.completedFiles s.completedSize))
    let events ← safe (changeState .completed)
    return .fileCompleted fileId :: events ++ [.transferCompleted]
  return [.fileCompleted fileId]

def handleFileCompleteAck (fileId : FileId) (finalSize : Nat) (contentHash : Digest) :
    PanicM (List SessionEvent) := do
  safe (requireRole .offerer "handle file complete")
  let f ← safe (file fileId)
  if f.complete then return [.duplicateControl]
  if finalSize ≠ f.entry.size ∨ contentHash ≠ f.entry.contentHash then
    throw (.error (.integrityMismatch fileId))
  let remaining ← plainSub f.entry.size f.baseOffset
  if f.sendOffset ≠ remaining ∨ (f.finQueued = false ∧ remaining ≠ 0) then
    throw (.error (.invalidState "handle file complete" "data stream is incomplete"))
  markComplete f fileId finalSize
  let events ← startPendingFiles
  let s ← get
  if s.completedFiles = s.files.size then
    return .fileCompleted fileId :: events ++ (← safe (changeState .awaitingTransferComplete))
  return .fileCompleted fileId :: events

def handleControl : TransferControl → PanicM (List SessionEvent)
  | .resumeState fileId durableOffset checkpointId stateHash =>
      handleResumeState fileId ⟨durableOffset, checkpointId, stateHash⟩
  | .fileBegin fileId streamId baseOffset remainingSize contentHash =>
      handleFileBegin fileId streamId baseOffset remainingSize contentHash
  | .fileComplete fileId finalSize contentHash =>
      handleFileCompleteAck fileId finalSize contentHash
  | message => safe (Session.handleControl message)

def handleControlWithFlags (message : TransferControl) (errorFlag : Bool) :
    PanicM (List SessionEvent) := do
  if errorFlag then
    throw (.error (.invalidState "handle control" "error flag requires an error message"))
  handleControl message

def handleDataWithStorage (chunk : DataChunk) (written : Except CoreError Unit) :
    PanicM (List SessionEvent) := do
  let _ ← safe (file chunk.fileId)
  let events ← handleData chunk
  if events.any fun | .dataReceived .. => true | _ => false then
    match written with
    | .error e =>
        safe (modify fun s => { s with state := .failed })
        throw (.error e)
    | .ok () => return events
  return events

def completeFileWithStorage (fileId : FileId) (finalSize : Nat) (contentHash : Digest)
    (stored : Except CoreError Unit) : PanicM (List SessionEvent) := do
  let f ← safe (file fileId)
  if !f.complete then safe (checkCompletion f fileId finalSize contentHash)
  match stored with
  | .error e => throw (.error e)
  | .ok () => completeFile fileId finalSize contentHash

def perform : Op → PanicM (List SessionEvent)
  | .handleControl message => handleControl message
  | .handleControlWithFlags message errorFlag => handleControlWithFlags message errorFlag
  | .handleData chunk => handleData chunk
  | .handleDataWithStorage chunk written => handleDataWithStorage chunk written
  | .queueData fileId bytes fin => do
      let _ ← queueData fileId bytes fin
      return []
  | .completeFile fileId finalSize contentHash => completeFile fileId finalSize contentHash
  | .completeFileWithStorage fileId finalSize contentHash stored =>
      completeFileWithStorage fileId finalSize contentHash stored
  | op => safe (Session.perform op)

end DartUdp.Session.Panics
