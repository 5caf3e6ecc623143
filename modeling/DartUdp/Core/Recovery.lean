import DartUdp.Core.Streams
import DartUdp.Lib.MapSum

/-!
# Acknowledgement, loss and congestion state

What a connection remembers of the packets it received and of those it sent
and that are not acknowledged yet, its congestion window and its round-trip
estimate. The estimate is plain arithmetic on durations: where a sum or a
product would leave the range of `Duration`, the source panics.
-/

namespace DartUdp.Core

open DartUdp.Lib DartUdp.Udp

/-! ## Packets received -/

structure ReceivedPackets where
  ranges : List AckRange := []
  largestReceivedAt : Option Nat := none
deriving DecidableEq, Repr

/-- One round of the loop of `ReceivedPackets::merge_adjacent`; the merged
ranges so far are kept last first. -/
def mergeRange (merged : List AckRange) (range : AckRange) : List AckRange :=
  match merged with
  | [] => [range]
  | previous :: rest =>
      if saturatingAdd range.stop 1 ≥ previous.start then
        ⟨min previous.start range.start, max previous.stop range.stop⟩ :: rest
      else range :: previous :: rest

/-- `ReceivedPackets::merge_adjacent`. -/
def mergeAdjacent (ranges : List AckRange) : List AckRange := (ranges.foldl mergeRange []).reverse

namespace ReceivedPackets

/-- The packet number lies in one of the ranges. -/
def contains (received : ReceivedPackets) (packetNumber : Nat) : Bool :=
  received.ranges.any (·.contains packetNumber)

/-- `ReceivedPackets::record`. -/
def record (received : ReceivedPackets) (packetNumber now : Nat) : Bool × ReceivedPackets :=
  if received.contains packetNumber then (false, received)
  else
    let single : AckRange := ⟨packetNumber, packetNumber⟩
    let ranges := mergeAdjacent
      ((received.ranges ++ [single]).insertionSort fun left right => left.before right)
    let receivedAt := if ranges.head?.any (·.stop == packetNumber) then some now
      else received.largestReceivedAt
    (true, ⟨ranges.take maxAckRanges, receivedAt⟩)

/-- `ReceivedPackets::frame`. -/
def frame (received : ReceivedPackets) (now ackDelay : Nat) :
    Except ProtocolError (Option AckFrame) :=
  if received.ranges.isEmpty then .ok none
  else do
    let delay := match received.largestReceivedAt with
      | some receivedAt => min (now - receivedAt) ackDelay
      | none => 0
    return some (← AckFrame.new delay (← ackRanges received.ranges))

end ReceivedPackets

/-! ## Packets sent -/

structure SentPacket where
  packetNumber : Nat
  sentAt : Nat
  encodedLen : Nat
  frames : List QueuedFrame
  retransmitCount : Nat
  timerId : Nat
  generation : Nat
deriving DecidableEq, Repr

/-! ## Congestion -/

structure CongestionController where
  cwnd : Nat
  ssthresh : Nat
  bytesInFlight : Nat
  minCwnd : Nat
  maxCwnd : Nat
  mss : Nat
deriving DecidableEq, Repr

namespace CongestionController

/-- `CongestionController::new`. -/
def new (initialCwnd minCwnd maxCwnd mss : Nat) : CongestionController where
  cwnd := min (max initialCwnd minCwnd) maxCwnd
  ssthresh := maxCwnd
  bytesInFlight := 0
  minCwnd := minCwnd
  maxCwnd := maxCwnd
  mss := max mss 1

/-- `CongestionController::can_send`. -/
def canSend (c : CongestionController) (bytes : Nat) : Bool :=
  saturatingAdd c.bytesInFlight bytes ≤ c.cwnd

/-- `CongestionController::on_sent`. -/
def onSent (c : CongestionController) (bytes : Nat) : CongestionController :=
  { c with bytesInFlight := saturatingAdd c.bytesInFlight bytes }

/-- `CongestionController::on_acked`. -/
def onAcked (c : CongestionController) (bytes : Nat) : CongestionController :=
  let increment := if c.cwnd < c.ssthresh then bytes
    else max (saturatingMul c.mss bytes / max c.cwnd 1) 1
  { c with
    bytesInFlight := c.bytesInFlight - bytes
    cwnd := min (saturatingAdd c.cwnd increment) c.maxCwnd }

/-- `CongestionController::on_loss`. -/
def onLoss (c : CongestionController) (bytes : Nat) : CongestionController :=
  { c with
    bytesInFlight := c.bytesInFlight - bytes
    ssthresh := max (c.cwnd / 2) c.minCwnd
    cwnd := max (c.cwnd / 2) c.minCwnd }

end CongestionController

/-! ## Round-trip time -/

structure RttEstimator where
  srtt : Option Nat
  rttvar : Nat
  rto : Nat
  initialRto : Nat
  minRto : Nat
  maxRto : Nat
  granularity : Nat
deriving DecidableEq, Repr

namespace RttEstimator

/-- `RttEstimator::new`. -/
def new (initialRto minRto maxRto granularity : Nat) : RttEstimator :=
  ⟨none, 0, initialRto, initialRto, minRto, maxRto, granularity⟩

/-- `RttEstimator::recalculate`. -/
def recalculate (r : RttEstimator) : RttEstimator :=
  let variance := max (r.rttvar * 4) r.granularity
  { r with rto := min (max (r.srtt.getD r.initialRto + variance) r.minRto) r.maxRto }

/-- `RttEstimator::on_ack`. -/
def onAck (r : RttEstimator) (sample ackDelay : Nat) : RttEstimator :=
  let sample := sample - ackDelay
  match r.srtt with
  | none => { r with srtt := some sample, rttvar := sample / 2 }.recalculate
  | some srtt =>
      let difference := max srtt sample - min srtt sample
      { r with
        rttvar := (r.rttvar * 3 + difference) / 4
        srtt := some ((srtt * 7 + sample) / 8) }.recalculate

/-- `RttEstimator::on_timeout`. -/
def onTimeout (r : RttEstimator) : RttEstimator :=
  { r with rto := min (if r.rto * 2 ≤ durationMax then r.rto * 2 else r.maxRto) r.maxRto }

/-- `RttEstimator::reset_backoff`. -/
def resetBackoff (r : RttEstimator) : RttEstimator :=
  if r.srtt.isNone then { r with rto := r.initialRto } else r.recalculate

end RttEstimator

/-! ## The transport of a connection -/

/-- What was in flight when an ack-eliciting packet had gone out: the counter,
the congestion window, and the lengths of the packets that were kept then. -/
structure Load where
  flight : Nat
  cwnd : Nat
  held : Nat
deriving DecidableEq, Repr

/-- `queued`, `acked` and `loads` are history variables: every frame handed to
`queue` or `queue_front`, every packet an ACK took off `sent`, and the load after
every ack-eliciting packet that went out, in order. Nothing reads them. -/
structure TransportState where
  nextPacketNumber : Nat := 0
  pendingFrames : List QueuedFrame := []
  sent : Std.TreeMap Nat SentPacket := ∅
  received : ReceivedPackets := {}
  ackPending : Bool := false
  ackReady : Bool := false
  generation : Nat := 0
  congestion : CongestionController
  rtt : RttEstimator
  lastPingNonce : Nat := 0
  queued : List Frame := []
  acked : List SentPacket := []
  loads : List Load := []

namespace TransportState

/-- `TransportState::new`. -/
def new (config : ConnectionConfig) : TransportState where
  congestion := .new config.initialCongestionWindow config.minCongestionWindow
    config.maxCongestionWindow config.maxDatagramSize
  rtt := .new config.initialRto config.minRto config.maxRto config.clockGranularity

/-- `TransportState::is_reliably_flushed`. -/
def isReliablyFlushed (t : TransportState) (streams : StreamManager) : Bool :=
  t.pendingFrames.isEmpty && t.sent.isEmpty && !streams.hasPendingData

/-- `TransportState::queue`. -/
def queue (t : TransportState) (frame : Frame) : TransportState :=
  { t with pendingFrames := t.pendingFrames ++ [⟨frame, 0⟩], queued := t.queued ++ [frame] }

/-- `TransportState::queue_front`. -/
def queueFront (t : TransportState) (frame : Frame) : TransportState :=
  { t with pendingFrames := ⟨frame, 0⟩ :: t.pendingFrames, queued := t.queued ++ [frame] }

/-- The lengths of the packets that are not acknowledged. -/
def sentBytes (t : TransportState) : Nat := mapSum t.sent (·.encodedLen)

/-- The load is noted. -/
def weigh (t : TransportState) : TransportState :=
  { t with
    loads := t.loads ++ [⟨t.congestion.bytesInFlight, t.congestion.cwnd, t.sentBytes⟩] }

/-- `TransportState::on_ack_timer`. -/
def onAckTimer (t : TransportState) : TransportState :=
  if t.ackPending then { t with ackReady := true } else t

/-- `TransportState::queue_keepalive`. -/
def queueKeepalive (t : TransportState) : TransportState :=
  let nonce := (t.lastPingNonce + 1) % 2 ^ 64
  { t with lastPingNonce := nonce }.queue (.ping nonce)

end TransportState

/-- `packet_type`. -/
def packetType (frame : Frame) (state : ConnectionState) : PacketType :=
  match frame with
  | .clientHello _ => .initial
  | .handshakeAck _ => .handshake
  | .serverHello _ => .handshake
  | .connectionClose _ => .close
  | _ => if state = .handshaking then .handshake else .data

end DartUdp.Core
