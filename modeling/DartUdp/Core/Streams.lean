import Std.Data.TreeMap
import DartUdp.Core.Config

/-!
# Streams and flow control

A stream has a queue of chunks to send and a buffer of segments received out
of order; the contiguous part of what was received waits in `ready`. Limits
are absolute offsets, for each stream and for the connection as a whole.
-/

namespace DartUdp.Core

open DartUdp.Lib DartUdp.Udp

/-! ## Flow control -/

structure SendFlowControl where
  connectionMaxOffset : Nat
  connectionSentOffset : Nat := 0
deriving DecidableEq, Repr

namespace SendFlowControl

/-- `SendFlowControl::update`. -/
def update (flow : SendFlowControl) (maxOffset : Nat) : SendFlowControl :=
  { flow with connectionMaxOffset := max flow.connectionMaxOffset maxOffset }

/-- `SendFlowControl::set_max_offset`. -/
def setMaxOffset (flow : SendFlowControl) (maxOffset : Nat) : SendFlowControl :=
  { flow with connectionMaxOffset := maxOffset }

/-- The limit a hello sets, if it sets one. -/
def learn (flow : SendFlowControl) : Option Nat → SendFlowControl
  | some maxOffset => flow.setMaxOffset maxOffset
  | none => flow

/-- `SendFlowControl::can_send`. -/
def canSend (flow : SendFlowControl) (length : Nat) (retransmission : Bool) : Bool :=
  retransmission ||
    (checkedAdd flow.connectionSentOffset length).any fun stop =>
      decide (stop ≤ flow.connectionMaxOffset)

/-- `SendFlowControl::account_new_data`. -/
def accountNewData (flow : SendFlowControl) (length : Nat) : SendFlowControl :=
  { flow with connectionSentOffset := saturatingAdd flow.connectionSentOffset length }

end SendFlowControl

structure ReceiveFlowControl where
  maxOffset : Nat
  uniqueReceived : Nat
  consumed : Nat
  windowSize : Nat
  advertisedOffset : Nat
deriving DecidableEq, Repr

namespace ReceiveFlowControl

/-- `ReceiveFlowControl::new`. -/
def new (windowSize : Nat) : ReceiveFlowControl := ⟨windowSize, 0, 0, windowSize, windowSize⟩

/-- `ReceiveFlowControl::check`. -/
def check (flow : ReceiveFlowControl) (streamId : Option Nat) (stop newBytes : Nat) :
    Except CoreError Unit :=
  if stop > flow.maxOffset then .error (.flowControlViolation streamId)
  else if (checkedAdd flow.uniqueReceived newBytes).isNone then
    .error (.flowControlViolation streamId)
  else .ok ()

/-- `ReceiveFlowControl::account`. -/
def account (flow : ReceiveFlowControl) (streamId : Option Nat) (newBytes : Nat) :
    Except CoreError ReceiveFlowControl :=
  match checkedAdd flow.uniqueReceived newBytes with
  | none => .error (.flowControlViolation streamId)
  | some total => .ok { flow with uniqueReceived := total }

/-- `ReceiveFlowControl::consume`: the limit to advertise, when it grew. -/
def consume (flow : ReceiveFlowControl) (amount : Nat) : Option Nat × ReceiveFlowControl :=
  let consumed := saturatingAdd flow.consumed amount
  let desired := saturatingAdd consumed flow.windowSize
  if desired > flow.advertisedOffset then
    (some desired,
      { flow with consumed := consumed, advertisedOffset := desired, maxOffset := desired })
  else (none, { flow with consumed := consumed })

end ReceiveFlowControl

/-! ## Sending -/

structure QueuedFrame where
  frame : Frame
  retransmitCount : Nat := 0
deriving DecidableEq, Repr

structure PendingData where
  offset : Nat
  data : Bytes
  fin : Bool
  retransmitCount : Nat
deriving DecidableEq, Repr

structure SendStream where
  streamId : Nat
  maxOffset : Nat
  nextOffset : Nat := 0
  queuedBytes : Nat := 0
  finRequested : Bool := false
  finSent : Bool := false
  queue : List PendingData := []
deriving DecidableEq, Repr

/-- The loop of `SendStream::write` over the chunks: what it pushes, starting at
`offset`. The offsets end at one that was checked before, so the source's
overflow check of each is not repeated. -/
def pendingChunks (offset : Nat) : List Bytes → List PendingData
  | [] => []
  | chunk :: rest => ⟨offset, chunk, false, 0⟩ :: pendingChunks (offset + chunk.length) rest

/-- `queue.back_mut()` with its FIN set. -/
def finLast : List PendingData → List PendingData
  | [] => []
  | [last] => [{ last with fin := true }]
  | item :: rest => item :: finLast rest

namespace SendStream

/-- `SendStream::has_pending_data`. -/
def hasPendingData (s : SendStream) : Bool := !s.queue.isEmpty

/-- `SendStream::write`. -/
def write (s : SendStream) (data : Bytes) (fin : Bool) (maxBuffer maxChunk : Nat) :
    Except CoreError (Nat × SendStream) :=
  if s.finRequested || s.finSent then .error (.invalidState "write after FIN")
  else if data.length > maxBuffer - s.queuedBytes then .error .sendBufferFull
  else
    match checkedAdd s.nextOffset data.length with
    | none => .error .invalidOffset
    | some stop =>
        if stop > s.maxOffset then .error (.flowControlViolation (some s.streamId))
        else
          let queue := s.queue ++ pendingChunks s.nextOffset (chunks (max maxChunk 1) data)
          let queue := if !fin then queue
            else if data.isEmpty then queue ++ [⟨stop, [], true, 0⟩]
            else finLast queue
          .ok (data.length,
            { s with
              nextOffset := stop
              queuedBytes := saturatingAdd s.queuedBytes data.length
              finRequested := s.finRequested || fin
              queue := queue })

/-- `SendStream::pop_sendable`. -/
def popSendable (s : SendStream) : Option (PendingData × SendStream) :=
  match s.queue with
  | [] => none
  | item :: rest =>
      some (item,
        { s with
          queue := rest
          queuedBytes := s.queuedBytes - item.data.length
          finSent := s.finSent || item.fin })

/-- `SendStream::requeue`. -/
def requeue (s : SendStream) (frame : StreamData) (retransmitCount : Nat) : SendStream :=
  { s with
    queue := ⟨frame.offset, frame.data, frame.fin, retransmitCount⟩ :: s.queue
    queuedBytes := saturatingAdd s.queuedBytes frame.data.length
    finSent := if frame.fin then false else s.finSent }

/-- `SendStream::update_window`. -/
def updateWindow (s : SendStream) (maxOffset : Nat) : SendStream :=
  { s with maxOffset := max s.maxOffset maxOffset }

end SendStream

/-! ## Receiving -/

structure ReceiveStream where
  streamId : Nat
  maxOffset : Nat
  nextOffset : Nat := 0
  finalOffset : Option Nat := none
  segments : Std.TreeMap Nat Bytes := ∅
  ready : Bytes := []

/-- The loop of `uncovered_ranges` over the segments below `stop`. -/
def uncovered (cursor stop : Nat) : List (Nat × Bytes) → List (Nat × Nat)
  | [] => if cursor < stop then [(cursor, stop)] else []
  | (start, data) :: rest =>
      let existingEnd := saturatingAdd start data.length
      if existingEnd ≤ cursor then uncovered cursor stop rest
      else
        let gap := if start > cursor then [(cursor, min start stop)] else []
        let cursor := max cursor existingEnd
        if cursor ≥ stop then gap else gap ++ uncovered cursor stop rest

abbrev ReceiveM := EStateM CoreError ReceiveStream

namespace ReceiveStream

/-- `ReceiveStream::uncovered_ranges`. -/
def uncoveredRanges (r : ReceiveStream) (offset stop : Nat) : List (Nat × Nat) :=
  if offset = stop then []
  else uncovered (max offset r.nextOffset) stop (r.segments.toList.filter (·.1 < stop))

/-- `ReceiveStream::new_bytes`; the lengths of the ranges add up to at most
`stop`, so their sum does not overflow. -/
def newBytes (r : ReceiveStream) (offset : Nat) (data : Bytes) : Except CoreError Nat :=
  match checkedAdd offset data.length with
  | none => .error .invalidOffset
  | some stop =>
      if stop > r.maxOffset then .error (.flowControlViolation (some r.streamId))
      else .ok ((r.uncoveredRanges offset stop).map fun range => range.2 - range.1).sum

/-- `ReceiveStream::readable`. -/
def readable (r : ReceiveStream) : Bool := !r.ready.isEmpty

/-- `ReceiveStream::is_finished`. -/
def isFinished (r : ReceiveStream) : Bool :=
  r.finalOffset.any fun finalOffset => r.nextOffset == finalOffset && r.ready.isEmpty

/-- `ReceiveStream::buffered_len`. -/
def bufferedLen (r : ReceiveStream) : Nat :=
  r.ready.length + (r.segments.toList.map (·.2.length)).sum

/-- `ReceiveStream::read`. -/
def read (r : ReceiveStream) (maxLen : Nat) : Bytes × ReceiveStream :=
  (r.ready.take maxLen, { r with ready := r.ready.drop maxLen })

end ReceiveStream

/-- The loop of `ReceiveStream::insert` over the uncovered ranges. -/
def insertRanges (offset : Nat) (data : Bytes) : List (Nat × Nat) → ReceiveM Nat
  | [] => return 0
  | (start, stop) :: rest => do
      if stop - offset > data.length then throw .invalidOffset
      let chunk := (data.take (stop - offset)).drop (start - offset)
      modify fun r => { r with segments := r.segments.insert start chunk }
      return saturatingAdd chunk.length (← insertRanges offset data rest)

/-- The loop of `ReceiveStream::deliver_contiguous`. Every round takes a segment
out. -/
def deliverLoop : Nat → ReceiveM Unit
  | 0 => return
  | fuel + 1 => do
      let r ← get
      match r.segments[r.nextOffset]? with
      | none => return
      | some data => do
          modify fun r => { r with segments := r.segments.erase r.nextOffset }
          match checkedAdd r.nextOffset data.length with
          | none => throw .invalidOffset
          | some nextOffset => do
              modify fun r => { r with nextOffset := nextOffset, ready := r.ready ++ data }
              deliverLoop fuel

/-- `ReceiveStream::deliver_contiguous`. -/
def deliverContiguous : ReceiveM Unit := do
  deliverLoop ((← get).segments.size)

/-- The final offset a frame ending at `stop` leaves, or a refusal. -/
def ReceiveStream.checkFinal (r : ReceiveStream) (stop : Nat) (fin : Bool) :
    Except CoreError (Option Nat) :=
  match r.finalOffset with
  | none => .ok (if fin then some stop else none)
  | some finalOffset =>
      if fin then
        if finalOffset ≠ stop then .error .invalidOffset else .ok (some stop)
      else if stop > finalOffset then .error .invalidOffset
      else .ok (some finalOffset)

/-- `ReceiveStream::insert`. -/
def insertSegment (offset : Nat) (data : Bytes) (fin : Bool) : ReceiveM Nat := do
  let r ← get
  match checkedAdd offset data.length with
  | none => throw .invalidOffset
  | some stop => do
      if stop > r.maxOffset then throw (.flowControlViolation (some r.streamId))
      let finalOffset ← ofExcept id (r.checkFinal stop fin)
      modify fun r => { r with finalOffset := finalOffset }
      let newBytes ← insertRanges offset data (r.uncoveredRanges offset stop)
      deliverContiguous
      return newBytes

/-! ## The streams of a connection -/

inductive StreamState where
  | opened
  | reset (errorCode : Nat)
  | finished
deriving DecidableEq, Repr

structure StreamRecord where
  id : Nat
  bidirectional : Bool
  state : StreamState
  send : SendStream
  recv : ReceiveStream
  recvFlow : ReceiveFlowControl

structure StreamInfo where
  streamId : Nat
  state : StreamState
  bidirectional : Bool
  sendOffset : Nat
  receiveOffset : Nat
  receiveWindow : Nat
  bufferedBytes : Nat
deriving DecidableEq, Repr

/-- `StreamRecord::info`. -/
def StreamRecord.info (s : StreamRecord) : StreamInfo :=
  ⟨s.id, s.state, s.bidirectional, s.send.nextOffset, s.recv.nextOffset, s.recv.maxOffset,
    s.recv.bufferedLen⟩

structure StreamManager where
  nextStreamNumber : Nat
  streams : Std.TreeMap Nat StreamRecord := ∅

structure StreamRead where
  data : Bytes
  eof : Bool
  windowUpdate : Option Nat
deriving DecidableEq, Repr

structure StreamDataStatus where
  readable : Bool
  finished : Bool
  buffered : Nat
deriving DecidableEq, Repr

abbrev StreamsM := EStateM CoreError StreamManager

namespace StreamManager

/-- `StreamManager::has_pending_data`. -/
def hasPendingData (m : StreamManager) : Bool :=
  m.streams.toList.any (·.2.send.hasPendingData)

/-- `StreamManager::len`. -/
def len (m : StreamManager) : Nat := m.streams.size

/-- `StreamManager::info`. -/
def info (m : StreamManager) (streamId : Nat) : Except CoreError StreamInfo :=
  match m.streams[streamId]? with
  | some s => .ok s.info
  | none => .error (.unknownStream streamId)

/-- `StreamManager::send_window`, `none` for an unknown stream. -/
def sendWindow (m : StreamManager) (streamId : Nat) : Option Nat :=
  m.streams[streamId]?.map (·.send.maxOffset)

/-- Writes the record of a stream back. -/
def put (m : StreamManager) (streamId : Nat) (s : StreamRecord) : StreamManager :=
  { m with streams := m.streams.insert streamId s }

end StreamManager

/-- `self.streams.get_mut(&stream_id).ok_or(UnknownStream)`. -/
def record (streamId : Nat) : StreamsM StreamRecord := do
  match (← get).streams[streamId]? with
  | some s => return s
  | none => throw (.unknownStream streamId)

/-- The record of a new stream. -/
def StreamRecord.new (streamId : Nat) (bidirectional : Bool) (sendWindow receiveWindow : Nat) :
    StreamRecord where
  id := streamId
  bidirectional := bidirectional
  state := .opened
  send := { streamId := streamId, maxOffset := sendWindow }
  recv := { streamId := streamId, maxOffset := receiveWindow }
  recvFlow := .new receiveWindow

/-- `StreamManager::insert`. -/
def insertStream (streamId : Nat) (bidirectional : Bool) (sendWindow expectedParity : Nat)
    (receiveWindow : Nat) : StreamsM Unit := do
  if (← get).streams.contains streamId then return
  if streamId % 2 ≠ expectedParity then throw (.invalidStreamId streamId)
  modify (·.put streamId (.new streamId bidirectional sendWindow receiveWindow))

/-- `StreamManager::open_local`. -/
def openLocal (role : ConnectionRole) (sendWindow receiveWindow : Nat) : StreamsM Nat := do
  let m ← get
  match checkedAdd m.nextStreamNumber 2 with
  | none => throw (.invalidState "allocate stream ID")
  | some raw => do
      modify fun m => { m with nextStreamNumber := raw }
      insertStream m.nextStreamNumber true sendWindow role.localStreamParity receiveWindow
      return m.nextStreamNumber

/-- `StreamManager::write`. -/
def writeRecord (streamId : Nat) (data : Bytes) (fin : Bool) (maxBuffer maxChunk : Nat) :
    StreamsM Nat := do
  let s ← record streamId
  if s.state ≠ .opened then throw (.invalidState "write closed stream")
  let (written, send) ← ofExcept id (s.send.write data fin maxBuffer maxChunk)
  modify (·.put streamId { s with send := send })
  return written

/-- The part of `StreamManager::read` on the record of the stream. -/
def StreamRecord.read (s : StreamRecord) (maxLen : Nat) : StreamRead × StreamRecord :=
  let (data, recv) := s.recv.read maxLen
  let (windowUpdate, recvFlow) := s.recvFlow.consume data.length
  let recv := { recv with maxOffset := windowUpdate.getD recv.maxOffset }
  let eof := recv.isFinished
  (⟨data, eof, windowUpdate⟩,
    { s with
      recv := recv
      recvFlow := recvFlow
      state := bif eof then .finished else s.state })

/-- `StreamManager::read`. -/
def readRecord (streamId maxLen : Nat) : StreamsM StreamRead := do
  let s ← record streamId
  match s.state with
  | .reset errorCode => throw (.streamReset streamId errorCode)
  | _ => do
      modify (·.put streamId (s.read maxLen).2)
      return (s.read maxLen).1

/-- `StreamManager::new_data_bytes`. -/
def newDataBytes (data : StreamData) (maxReceiveBuffer : Nat) : StreamsM Nat := do
  let s ← record data.streamId
  if s.state ≠ .opened then return 0
  let newBytes ← ofExcept id (s.recv.newBytes data.offset data.data)
  if newBytes > maxReceiveBuffer - s.recv.bufferedLen then throw .receiveBufferFull
  return newBytes

/-- `StreamManager::insert_data`. -/
def insertData (data : StreamData) : StreamsM StreamDataStatus := do
  let s ← record data.streamId
  if s.state ≠ .opened then return ⟨false, false, s.recv.bufferedLen⟩
  let _ ← zoom (fun _ => s.recv) (fun r m => m.put data.streamId { s with recv := r })
    (insertSegment data.offset data.data data.fin)
  let s ← record data.streamId
  return ⟨s.recv.readable, s.recv.isFinished, s.recv.bufferedLen⟩

/-- `StreamManager::finish`. -/
def StreamManager.finish (m : StreamManager) (streamId : Nat) : StreamManager :=
  match m.streams[streamId]? with
  | some s => m.put streamId { s with state := .finished }
  | none => m

/-- `StreamManager::reset`. -/
def resetRecord (streamId errorCode : Nat) : StreamsM Unit := do
  let s ← record streamId
  modify (·.put streamId { s with state := .reset errorCode })

/-- `StreamManager::update_send_window`. -/
def updateSendWindow (streamId maxOffset : Nat) : StreamsM Unit := do
  let s ← record streamId
  modify (·.put streamId { s with send := s.send.updateWindow maxOffset })

/-- The front chunk of a stream may be sent. -/
def StreamRecord.sendable (s : StreamRecord) : Bool :=
  match s.send.queue with
  | [] => false
  | item :: _ =>
      !(item.retransmitCount == 0 && saturatingAdd item.offset item.data.length > s.send.maxOffset)

/-- `StreamManager::take_sendable`: the first stream, by id, whose front chunk
may be sent. -/
def StreamManager.takeSendable (m : StreamManager) : Option (QueuedFrame × StreamManager) := do
  let (streamId, s) ← m.streams.toList.find? (·.2.sendable)
  let (item, send) ← s.send.popSendable
  return (⟨.streamData ⟨streamId, item.offset, item.fin, item.data⟩, item.retransmitCount⟩,
    m.put streamId { s with send := send })

/-- `StreamManager::requeue`. -/
def requeueData (data : StreamData) (retransmitCount : Nat) : StreamsM Unit := do
  let s ← record data.streamId
  modify (·.put data.streamId { s with send := s.send.requeue data retransmitCount })

end DartUdp.Core
