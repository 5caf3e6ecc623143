import DartUdp.Session.Run
import DartUdp.Session.Stream

/-!
# The two ends of a transfer

An offerer, an accepter, and what is between them. Neither channel is trusted to
keep an order or to deliver once: what an end has ever queued can come to the other
at any time, any number of times, or never; but nothing else comes as a message of
the transfer. What the accepter reports as received is written to its disk.

The applications are taken at their word where the session has only their word:
the bytes queued for a file are the next ones of the file, and what a storage
restores as durable is on its disk.
-/

namespace DartUdp.Session

open DartUdp.Lib DartUdp.Transfer

/-- What is stored of each file, byte by byte. -/
abbrev Disk := FileId → Nat → Option UInt8

def Disk.write (disk : Disk) (fileId : FileId) (offset : Nat) (bytes : Bytes) : Disk :=
  fun id i =>
    if id = fileId ∧ offset ≤ i ∧ i < offset + bytes.length then bytes[i - offset]?
    else disk id i

/-- Write the received data the events report. -/
def Disk.record (disk : Disk) (events : List SessionEvent) : Disk :=
  (received events).foldl (fun disk (fileId, offset, bytes) => disk.write fileId offset bytes) disk

/-- The ends, with all that they have ever queued. -/
structure Peers where
  offerer : TransferSession
  accepter : TransferSession
  disk : Disk
  offered : List OutboundMessage := []
  chunks : List DataChunk := []
  answered : List OutboundMessage := []
  /-- The storage has refused to write. -/
  refused : Bool := false

/-- Nothing has been said yet. -/
def Peers.new (offerer accepter : TransferSession) (disk : Disk) : Peers :=
  { offerer, accepter, disk }

inductive Turn where
  | offerer (op : Op)
  | accepter (op : Op)

/-- The session takes the chunk in, but the storage does not write it. -/
def Op.refuses (s : TransferSession) : Op → Bool
  | .handleDataWithStorage chunk (.error _) =>
      !(received ((take s (.handleData chunk)).answer.getD [])).isEmpty
  | _ => false

def Peers.step (p : Peers) : Turn → Peers
  | .offerer op =>
      let t := take p.offerer op
      { p with
        offerer := t.after
        offered := p.offered ++ t.after.controls
        chunks := p.chunks ++ t.after.data }
  | .accepter op =>
      let t := take p.accepter op
      { p with
        accepter := t.after
        answered := p.answered ++ t.after.controls
        disk := p.disk.record (t.answer.getD [])
        refused := p.refused || op.refuses p.accepter }

def Peers.run (p : Peers) (turns : List Turn) : Peers := turns.foldl Peers.step p

/-! ## What can come in -/

/-- The message a call hands to its handler. -/
def Op.hears : Op → Option TransferControl
  | .handleControl message => some message
  | .handleControlWithFlags message false => some message
  | _ => none

/-- The data a call takes in. -/
def Op.brings : Op → Option DataChunk
  | .handleData chunk => some chunk
  | .handleDataWithStorage chunk _ => some chunk
  | _ => none

/-- A session queues no `TransferError`: it comes from the code around it. -/
def TransferControl.isError : TransferControl → Bool
  | .transferError .. => true
  | _ => false

/-- A message or chunk that comes in was queued by the other end. -/
structure Op.Genuine (op : Op) (messages : List OutboundMessage) (chunks : List DataChunk) :
    Prop where
  hears : ∀ message ∈ op.hears, message.isError = false → .transfer message ∈ messages
  brings : ∀ chunk ∈ op.brings, chunk ∈ chunks

/-- What a call queues for a file. -/
def Op.queues : Op → Option (FileId × Bytes)
  | .queueData fileId bytes _ => some (fileId, bytes)
  | _ => none

/-- The bytes queued for a file are those that come next in it. -/
def Op.Reads (source : FileId → Bytes) (op : Op) (s : TransferSession) : Prop :=
  ∀ q ∈ op.queues, ∀ f ∈ s.files[q.1]?,
    q.2 <+: (source q.1).drop (f.baseOffset + f.sendOffset)

/-- What a call says is durable. -/
def Op.restores : Op → Option (FileId × Nat)
  | .setDurableState fileId state => some (fileId, state.durableOffset)
  | .respondToResumeQueryWithStorage fileId _ _ (.ok state) => some (fileId, state.durableOffset)
  | _ => none

def Op.marks : Op → Option (FileId × Nat)
  | .checkpoint fileId durableOffset _ => some (fileId, durableOffset)
  | .checkpointWithStorage fileId durableOffset _ _ (.ok ()) => some (fileId, durableOffset)
  | _ => none

/-- The file is on the disk up to there. -/
def Disk.Holds (disk : Disk) (fileId : FileId) (stop : Nat) : Prop :=
  ∀ i < stop, (disk fileId i).isSome

/-- What is restored is on the disk. Of a checkpoint the session itself sees to it that
it is not beyond what came in; but a storage that has refused some of that must not
agree to it. -/
structure Op.Stored (op : Op) (p : Peers) : Prop where
  restores : ∀ r ∈ op.restores, p.disk.Holds r.1 r.2
  marks : p.refused = true → ∀ r ∈ op.marks, p.disk.Holds r.1 r.2

/-- A turn of two fair ends: nothing else comes in than what the other end has queued,
and the bytes queued for a file are its next ones. -/
def Peers.Fair (source : FileId → Bytes) (p : Peers) : Turn → Prop
  | .offerer op => op.Genuine p.answered p.chunks ∧ op.Reads source p.offerer
  | .accepter op => op.Genuine p.offered p.chunks

/-- A turn of two honest ends. -/
def Peers.Honest (source : FileId → Bytes) (p : Peers) : Turn → Prop
  | .offerer op => op.Genuine p.answered p.chunks ∧ op.Reads source p.offerer
  | .accepter op => op.Genuine p.offered p.chunks ∧ op.Stored p

theorem Peers.Honest.fair {source : FileId → Bytes} {p : Peers} {turn : Turn}
    (h : p.Honest source turn) : p.Fair source turn := by
  cases turn with
  | offerer => exact h
  | accepter => exact h.1

section Decidable

variable (source : FileId → Bytes) (p : Peers) (op : Op)

instance (disk : Disk) (fileId : FileId) (stop : Nat) : Decidable (disk.Holds fileId stop) :=
  inferInstanceAs (Decidable (∀ i < stop, (disk fileId i).isSome))

instance (messages : List OutboundMessage) (chunks : List DataChunk) :
    Decidable (op.Genuine messages chunks) :=
  decidable_of_iff
    ((∀ message ∈ op.hears, message.isError = false → .transfer message ∈ messages) ∧
      ∀ chunk ∈ op.brings, chunk ∈ chunks)
    ⟨fun h => ⟨h.1, h.2⟩, fun h => ⟨h.1, h.2⟩⟩

instance (s : TransferSession) : Decidable (op.Reads source s) :=
  inferInstanceAs (Decidable (∀ q ∈ op.queues, ∀ f ∈ s.files[q.1]?,
    q.2 <+: (source q.1).drop (f.baseOffset + f.sendOffset)))

instance : Decidable (op.Stored p) :=
  decidable_of_iff
    ((∀ r ∈ op.restores, p.disk.Holds r.1 r.2) ∧
      (p.refused = true → ∀ r ∈ op.marks, p.disk.Holds r.1 r.2))
    ⟨fun h => ⟨h.1, h.2⟩, fun h => ⟨h.1, h.2⟩⟩

instance (turn : Turn) : Decidable (p.Honest source turn) :=
  match turn with
  | .offerer op =>
      inferInstanceAs (Decidable (op.Genuine p.answered p.chunks ∧ op.Reads source p.offerer))
  | .accepter op => inferInstanceAs (Decidable (op.Genuine p.offered p.chunks ∧ op.Stored p))

end Decidable

end DartUdp.Session
