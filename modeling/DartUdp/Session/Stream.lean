import DartUdp.Session.Session

/-!
# A file over its stream

What an offerer queues for a file it has begun, piece by piece, and what an
accepter answers to the chunks one after the other.
-/

namespace DartUdp.Session

open DartUdp.Lib DartUdp.Transfer

/-- The pieces of a file in order; only the last one ends it. -/
def cuts (pieces : List Bytes) (last : Bytes) : List (Bytes × Bool) :=
  pieces.map (·, false) ++ [(last, true)]

/-- Queue one piece after the other. -/
def queueAll (fileId : FileId) : List (Bytes × Bool) → SessionM (List DataChunk)
  | [] => return []
  | (bytes, fin) :: rest => do
      let chunk ← queueData fileId bytes fin
      return chunk :: (← queueAll fileId rest)

/-- Deliver one chunk after the other; the log has each with its events. -/
def deliver : List DataChunk → SessionM (List (DataChunk × List SessionEvent))
  | [] => return []
  | chunk :: rest => do
      let events ← handleData chunk
      return (chunk, events) :: (← deliver rest)

/-- The `DataReceived` among the events: the file, the absolute offset and the
bytes of each. -/
def received (events : List SessionEvent) : List (FileId × Nat × Bytes) :=
  events.filterMap fun
    | .dataReceived fileId absoluteOffset bytes _ => some (fileId, absoluteOffset, bytes)
    | _ => none

/-- All of it is of the file, and each part starts where the one before ended. -/
def Contiguous (fileId : FileId) : Nat → List (FileId × Nat × Bytes) → Prop
  | _, [] => True
  | start, (id, offset, bytes) :: rest =>
      id = fileId ∧ offset = start ∧ Contiguous fileId (start + bytes.length) rest

/-- What a log of deliveries says of the file: its bytes from `base` on, in
order; and until the chunk that ends the file has come, the file is ready just
when that chunk comes. -/
structure Faithful (fileId : FileId) (base : Nat) (bytes : Bytes)
    (log : List (DataChunk × List SessionEvent)) : Prop where
  bytes : ((log.flatMap fun d => received d.2).flatMap (·.2.2)) = bytes
  offsets : Contiguous fileId base (log.flatMap fun d => received d.2)
  ready : ∀ (before : List (DataChunk × List SessionEvent)) (d : DataChunk × List SessionEvent)
    (after : List (DataChunk × List SessionEvent)), log = before ++ d :: after →
    (∀ d' ∈ before, d'.1.fin = false) →
    (.fileReadyToComplete fileId ∈ d.2 ↔ d.1.fin = true)

end DartUdp.Session
