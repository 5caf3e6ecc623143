import Mathlib.Algebra.BigOperators.Group.Finset.Basic
import Mathlib.Tactic.Abel
import DartUdp.Lib.Tiling
import DartUdp.Proofs.ConnNumbers

/-!
# What becomes of the bytes written

A write cuts what it is given into chunks and queues them. From then on a chunk
is in one place: in the queue of its stream, in a packet that is not
acknowledged, or in one that is. Sending moves it from the first to the second,
an ACK from the second to the third, a loss back to the first; a chunk that was
taken and has to wait goes back. So the chunks of the three places always tile
what was written to the stream.

In the middle of a move a frame is in nobody's place but in hand. The invariant
counts those too.

`View.Holds` is the invariant, stream by stream, and `Edit.holds` the rule, with a
lemma for each kind of move before it.
-/

namespace DartUdp.Core

open DartUdp.Lib DartUdp.Udp

variable {suite : Suite} {L : Prop} {k : Cause} {v v' : View} {c : Connection}

/-! ## The three places -/

/-- The part of the stream that a chunk carries. -/
def pieceOf (d : StreamData) : Piece UInt8 := ⟨d.offset, d.data⟩

/-- The chunks of the stream among frames. -/
def chunksIn (id : Nat) (frames : List QueuedFrame) : List StreamData :=
  frames.filterMap fun q => match q.frame with
    | .streamData d => if d.streamId = id then some d else none
    | _ => none

/-- The chunk a queued piece of data goes out in. -/
def PendingData.chunk (item : PendingData) (id : Nat) : StreamData :=
  ⟨id, item.offset, item.fin, item.data⟩

/-- The chunks of the stream that wait in its queue. -/
def Connection.waiting (c : Connection) (id : Nat) : List StreamData :=
  match c.streams.streams[id]? with
  | some s => s.send.queue.map (·.chunk id)
  | none => []

/-- The chunks of the stream in packets that are not acknowledged. -/
def Connection.inFlight (c : Connection) (id : Nat) : List StreamData :=
  c.transport.sent.toList.flatMap fun entry => chunksIn id entry.2.frames

/-- The chunks of the stream in packets that were acknowledged. -/
def Connection.acknowledged (c : Connection) (id : Nat) : List StreamData :=
  c.transport.acked.flatMap fun packet => chunksIn id packet.frames

namespace View

/-- The chunks that wait. -/
def waiting (v : View) (id : Nat) : List StreamData :=
  (v.streams id).elim [] fun s => s.send.queue.map (·.chunk id)

/-- The chunks of a packet, if there is one. -/
def carried (id : Nat) (packet : Option SentPacket) : Multiset StreamData :=
  packet.elim 0 fun packet => ↑(chunksIn id packet.frames)

/-- The chunks that are not acknowledged. -/
def inFlight (v : View) (id : Nat) : Multiset StreamData :=
  ∑ n ∈ Finset.range v.next, carried id (v.unacked n)

/-- The chunks that are acknowledged. -/
def acknowledged (v : View) (id : Nat) : List StreamData :=
  v.acked.flatMap fun packet => chunksIn id packet.frames

/-- The chunks of the three places, and those in hand. -/
def placed (v : View) (hand : List QueuedFrame) (id : Nat) : Multiset StreamData :=
  ↑(v.waiting id) + v.inFlight id + ↑(v.acknowledged id) + ↑(chunksIn id hand)

end View

theorem chunksIn_append (id : Nat) (frames frames' : List QueuedFrame) :
    chunksIn id (frames ++ frames') = chunksIn id frames ++ chunksIn id frames' :=
  List.filterMap_append

theorem chunksIn_cons (id : Nat) (q : QueuedFrame) (frames : List QueuedFrame) :
    chunksIn id (q :: frames) = chunksIn id [q] ++ chunksIn id frames :=
  chunksIn_append id [q] frames

theorem chunksIn_nil (id : Nat) : chunksIn id [] = [] := rfl

theorem chunksIn_data (d : StreamData) (n : Nat) :
    chunksIn d.streamId [⟨.streamData d, n⟩] = [d] := by
  simp [chunksIn]

theorem chunksIn_data_of_ne {d : StreamData} {id : Nat} (n : Nat) (h : d.streamId ≠ id) :
    chunksIn id [⟨.streamData d, n⟩] = [] := by
  simp [chunksIn, h]

theorem chunksIn_other {q : QueuedFrame} (h : ∀ d, q.frame ≠ .streamData d) (id : Nat) :
    chunksIn id [q] = [] := by
  unfold chunksIn
  rw [List.filterMap_cons, List.filterMap_nil]
  split
  · rfl
  · next d heq =>
      split at heq
      · next d' hd => exact absurd hd (h d')
      · cases heq

theorem chunksIn_perm {frames frames' : List QueuedFrame} (id : Nat) (h : frames.Perm frames') :
    (chunksIn id frames : Multiset StreamData) = chunksIn id frames' :=
  Multiset.coe_eq_coe.2 (h.filterMap _)

/-! ## What a write queues -/

/-- The part of the stream that a queued piece of data is. -/
def PendingData.piece (item : PendingData) : Piece UInt8 := ⟨item.offset, item.data⟩

/-- The items are `data` cut in pieces, `offset` bytes after the start of the
stream; the last one has the FIN when there is one. -/
structure Cuts (offset : Nat) (data : Bytes) (fin : Bool) (items : List PendingData) : Prop where
  tiles : ∀ (pieces : Multiset (Piece UInt8)) (whole : Bytes), whole.length = offset →
    Tiles pieces whole → Tiles (pieces + ↑(items.map (·.piece))) (whole ++ data)
  ends : items.countP (·.fin) = if fin then 1 else 0
  fresh : ∀ item ∈ items, item.retransmitCount = 0 ∧ offset ≤ item.offset
  length : (items.map (·.data.length)).sum = data.length

theorem pendingChunks_cuts (offset : Nat) (parts : List Bytes) :
    Cuts offset parts.flatten false (pendingChunks offset parts) := by
  induction parts generalizing offset with
  | nil =>
      refine ⟨fun pieces whole _ h => ?_, rfl, nofun, rfl⟩
      rw [List.flatten_nil, List.append_nil]
      exact (add_zero pieces).symm ▸ h
  | cons part rest ih =>
      have hrest := ih (offset + part.length)
      refine ⟨fun pieces whole hlen h => ?_, ?_, fun item hitem => ?_, ?_⟩
      · subst hlen
        have hnext := hrest.tiles _ (whole ++ part) List.length_append (h.concat part)
        rw [List.append_assoc, ← List.flatten_cons, Multiset.cons_add, ← Multiset.add_cons] at hnext
        exact hnext
      · rw [pendingChunks, List.countP_cons_of_neg Bool.false_ne_true]
        exact hrest.ends
      · rcases List.mem_cons.1 hitem with rfl | hitem
        · exact ⟨rfl, Nat.le_refl _⟩
        · obtain ⟨hcount, hle⟩ := hrest.fresh item hitem
          exact ⟨hcount, by omega⟩
      · rw [pendingChunks, List.map_cons, List.sum_cons, hrest.length, List.flatten_cons,
          List.length_append]

theorem finLast_concat (items : List PendingData) (last : PendingData) :
    finLast (items ++ [last]) = items ++ [{ last with fin := true }] := by
  induction items with
  | nil => rfl
  | cons item rest ih =>
      cases rest with
      | nil => rfl
      | cons next rest =>
          rw [List.cons_append, List.cons_append, finLast, ← List.cons_append, ih]
          · rfl
          · exact fun h => by cases h

theorem finLast_append {items new : List PendingData} (hnew : new ≠ []) :
    finLast (items ++ new) = items ++ finLast new := by
  obtain ⟨front, last, rfl⟩ := (List.eq_nil_or_concat' new).resolve_left hnew
  rw [← List.append_assoc, finLast_concat, finLast_concat, List.append_assoc]

/-- The FIN on the last item. -/
theorem Cuts.finish {offset : Nat} {data : Bytes} {items : List PendingData}
    (h : Cuts offset data false items) (hne : items ≠ []) :
    Cuts offset data true (finLast items) := by
  obtain ⟨front, last, rfl⟩ := (List.eq_nil_or_concat' items).resolve_left hne
  have hends : (front ++ [last]).countP (·.fin) = 0 := h.ends
  rw [List.countP_append, Nat.add_eq_zero_iff] at hends
  rw [finLast_concat]
  refine ⟨fun pieces whole hlen ht => ?_, ?_, fun item hitem => ?_, ?_⟩
  · have := h.tiles pieces whole hlen ht
    rw [List.map_append] at this ⊢
    exact this
  · rw [List.countP_append, hends.1]
    rfl
  · rcases List.mem_append.1 hitem with hitem | hitem
    · exact h.fresh item (List.mem_append_left _ hitem)
    · rw [List.mem_singleton.1 hitem]
      exact h.fresh last (List.mem_append_right _ (List.mem_singleton_self _))
  · have := h.length
    rw [List.map_append] at this ⊢
    exact this

/-- A FIN with no data. -/
theorem Cuts.bare (offset : Nat) : Cuts offset [] true [⟨offset, [], true, 0⟩] := by
  refine ⟨fun pieces whole hlen ht => ?_, rfl, fun item hitem => ?_, rfl⟩
  · subst hlen
    have := ht.concat []
    rw [← Multiset.singleton_add, add_comm] at this
    exact this
  · rw [List.mem_singleton.1 hitem]
    exact ⟨rfl, Nat.le_refl _⟩

/-- What an accepted write leaves. -/
theorem SendStream.write_ok {s send : SendStream} {data : Bytes} {fin : Bool}
    {maxBuffer maxChunk n : Nat} (h : s.write data fin maxBuffer maxChunk = .ok (n, send)) :
    n = data.length ∧ s.finRequested = false ∧ send.nextOffset = s.nextOffset + data.length ∧
      send.nextOffset ≤ u64Max ∧ send.finRequested = fin ∧
      send.queuedBytes = saturatingAdd s.queuedBytes data.length ∧
      ∃ items, send.queue = s.queue ++ items ∧ Cuts s.nextOffset data fin items := by
  unfold SendStream.write at h
  split at h
  · cases h
  · next hopen =>
      rw [Bool.or_eq_true, not_or, Bool.not_eq_true] at hopen
      split at h
      · cases h
      · split at h
        · cases h
        · next stop hstop =>
            split at h
            · cases h
            · have hcuts := pendingChunks_cuts s.nextOffset (chunks (max maxChunk 1) data)
              rw [flatten_chunks (by omega)] at hcuts
              obtain ⟨rfl, hmax⟩ : stop = s.nextOffset + data.length ∧ stop ≤ u64Max := by
                unfold checkedAdd at hstop
                split at hstop
                · next hle =>
                    cases hstop
                    exact ⟨rfl, hle⟩
                · cases hstop
              cases h
              refine ⟨rfl, hopen.1, rfl, hmax, by rw [hopen.1]; rfl, rfl, ?_⟩
              dsimp only
              cases fin with
              | false => exact ⟨_, rfl, hcuts⟩
              | true =>
                  cases data with
                  | nil => exact ⟨_, congrArg (· ++ _) (List.append_nil _), Cuts.bare s.nextOffset⟩
                  | cons b rest =>
                      have hne : pendingChunks s.nextOffset
                          (chunks (max maxChunk 1) (b :: rest)) ≠ [] := fun hnil => by
                        have := hcuts.length
                        rw [hnil] at this
                        cases this
                      exact ⟨_, finLast_append hne, hcuts.finish hne⟩

/-! ## The books of a stream -/

/-- What was written to each stream so far, and whether its end was. -/
structure Written where
  bytes : Nat → Bytes
  ended : Nat → Bool

/-- One more write to a stream. -/
def Written.add (w : Written) (id : Nat) (data : Bytes) (fin : Bool) : Written where
  bytes := Function.update w.bytes id (w.bytes id ++ data)
  ended := Function.update w.ended id (w.ended id || fin)

/-- The chunks tile what was written, the end of a stream goes with one of them,
and each stream counts what was written to it and what waits. -/
structure View.Holds (v : View) (hand : List QueuedFrame) (w : Written) : Prop where
  recent : ∀ n sp, v.unacked n = some sp → n < v.next
  tiles : ∀ id, Tiles ((v.placed hand id).map pieceOf) (w.bytes id)
  ends : ∀ id, (v.placed hand id).countP (·.fin) = if w.ended id then 1 else 0
  unknown : ∀ id, v.streams id = none → w.bytes id = [] ∧ w.ended id = false
  known : ∀ id s, v.streams id = some s →
    s.send.nextOffset = (w.bytes id).length ∧ s.send.nextOffset ≤ u64Max ∧
      s.send.finRequested = w.ended id ∧
      s.send.queuedBytes = (s.send.queue.map (·.data.length)).sum

namespace View

variable {hand : List QueuedFrame} {w : Written} {q : QueuedFrame}

theorem waiting_put (v : View) (id : Nat) (s : StreamRecord) :
    (v.put id s).waiting id = s.send.queue.map (·.chunk id) := by
  unfold waiting
  rw [put_self]
  rfl

theorem waiting_put_of_ne {i id : Nat} {s : StreamRecord} (h : i ≠ id) :
    (v.put id s).waiting i = v.waiting i := by
  unfold waiting
  rw [put_of_ne h]

theorem waiting_of_some {id : Nat} {s : StreamRecord} (hs : v.streams id = some s) :
    v.waiting id = s.send.queue.map (·.chunk id) := by
  unfold waiting
  rw [hs]
  rfl

theorem inFlight_forget {n : Nat} {sp : SentPacket} (hs : v.unacked n = some sp)
    (hn : n < v.next) (id : Nat) :
    (v.forget n).inFlight id + ↑(chunksIn id sp.frames) = v.inFlight id := by
  have hmem : n ∈ Finset.range v.next := Finset.mem_range.2 hn
  unfold inFlight
  rw [← Finset.add_sum_erase _ _ hmem]
  show ∑ m ∈ Finset.range v.next, carried id ((v.forget n).unacked m) + _ = _
  rw [← Finset.add_sum_erase _ _ hmem, forget_self, hs]
  have hrest : ∀ m ∈ (Finset.range v.next).erase n,
      carried id ((v.forget n).unacked m) = carried id (v.unacked m) := fun m hm => by
    rw [forget_of_ne (Finset.ne_of_mem_erase hm)]
  rw [Finset.sum_congr rfl hrest]
  show 0 + _ + _ = _
  rw [zero_add, add_comm]
  rfl

/-- A packet under the next number. -/
theorem inFlight_ship (hnew : v.unacked v.next = none) (p : Packet) (id : Nat) :
    (v.ship p).inFlight id = v.inFlight id := by
  unfold inFlight
  show ∑ n ∈ Finset.range (v.next + 1), carried id (v.unacked n) = _
  rw [Finset.sum_range_succ, hnew]
  exact add_zero _

theorem inFlight_track (v : View) (p : Packet) (sp : SentPacket) (id : Nat) :
    ((v.ship p).track v.next sp).inFlight id = v.inFlight id + ↑(chunksIn id sp.frames) := by
  unfold inFlight
  show ∑ n ∈ Finset.range (v.next + 1), carried id (((v.ship p).track v.next sp).unacked n) = _
  rw [Finset.sum_range_succ, track_self]
  have hrest : ∀ n ∈ Finset.range v.next,
        carried id (((v.ship p).track v.next sp).unacked n) = carried id (v.unacked n) := by
    intro n hn
    rw [track_of_ne (Finset.mem_range.1 hn).ne]
    rfl
  rw [Finset.sum_congr rfl hrest]
  rfl

namespace Holds

/-- The packet number that comes next is not in use. -/
theorem unused (h : v.Holds hand w) : v.unacked v.next = none := by
  cases hs : v.unacked v.next with
  | none => rfl
  | some sp => exact absurd (h.recent v.next sp hs) (Nat.lt_irrefl _)

/-- The chunks may move between the places and the hand. -/
theorem move {hand' : List QueuedFrame} (h : v.Holds hand w)
    (hrecent : ∀ n sp, v'.unacked n = some sp → n < v'.next)
    (hplaced : ∀ id, v'.placed hand' id = v.placed hand id)
    (hunknown : ∀ id, v'.streams id = none → v.streams id = none)
    (hknown : ∀ id s', v'.streams id = some s' → ∃ s, v.streams id = some s ∧
      s'.send.nextOffset = s.send.nextOffset ∧ s'.send.finRequested = s.send.finRequested ∧
      s'.send.queuedBytes = (s'.send.queue.map (·.data.length)).sum) :
    v'.Holds hand' w := by
  refine ⟨hrecent, fun id => ?_, fun id => ?_, fun id hid => h.unknown id (hunknown id hid),
    fun id s' hs' => ?_⟩
  · rw [hplaced]
    exact h.tiles id
  · rw [hplaced]
    exact h.ends id
  · obtain ⟨s, hs, hnext, hfin, hsum⟩ := hknown id s' hs'
    obtain ⟨hlen, hmax, hend, _⟩ := h.known id s hs
    rw [hnext, hfin]
    exact ⟨hlen, hmax, hend, hsum⟩

/-- Nothing moves. -/
theorem keep (h : v.Holds hand w) (hs : v'.streams = v.streams) (hu : v'.unacked = v.unacked)
    (ha : v'.acked = v.acked) (hn : v'.next = v.next) : v'.Holds hand w := by
  have hplaced : ∀ id, v'.placed hand id = v.placed hand id := fun id => by
    unfold placed waiting inFlight acknowledged
    rw [hs, hu, ha, hn]
  refine h.move ?_ hplaced (fun id hid => hs ▸ hid) fun id s' hs' => ?_
  · rw [hu, hn]
    exact h.recent
  · rw [hs] at hs'
    exact ⟨s', hs', rfl, rfl, (h.known id s' hs').2.2.2⟩

/-- The order in hand does not matter. -/
theorem perm {hand' : List QueuedFrame} (h : v.Holds hand w) (hp : hand.Perm hand') :
    v.Holds hand' w := by
  refine h.move h.recent (fun id => ?_) (fun _ hid => hid) fun id s hs =>
    ⟨s, hs, rfl, rfl, (h.known id s hs).2.2.2⟩
  unfold placed
  rw [chunksIn_perm id hp]

/-- The bytes that wait and those in hand are some of those written. -/
theorem queued_le {id : Nat} {s : StreamRecord} (h : v.Holds hand w) (hs : v.streams id = some s) :
    (s.send.queue.map (·.data.length)).sum + ((chunksIn id hand).map (·.data.length)).sum ≤
      (w.bytes id).length := by
  have hle : (↑(v.waiting id) : Multiset StreamData) + ↑(chunksIn id hand) ≤ v.placed hand id := by
    unfold placed
    exact add_le_add_left ((Multiset.le_add_right _ _).trans (Multiset.le_add_right _ _)) _
  have hsum := (h.tiles id).sum_le (Multiset.map_le_map hle)
  rw [waiting_of_some hs, Multiset.coe_add, Multiset.map_coe, Multiset.map_coe, Multiset.sum_coe,
    List.map_map, List.map_append, List.sum_append, List.map_map] at hsum
  exact hsum

/-- A frame is taken in hand. -/
theorem takes (h : v.Holds hand w) (hapart : v.Apart) (ht : Takes v q v') :
    v'.Holds (q :: hand) w := by
  cases ht with
  | pending _ rest hp =>
      have hother : ∀ d, q.frame ≠ .streamData d := by
        refine hapart.pending q ?_
        rw [hp]
        exact List.mem_cons_self
      refine h.move h.recent (fun id => ?_) (fun _ hid => hid) fun id s hs =>
        ⟨s, hs, rfl, rfl, (h.known id s hs).2.2.2⟩
      unfold placed
      rw [chunksIn_cons, chunksIn_other hother]
      rfl
  | stream id s item send hs hpop =>
      unfold SendStream.popSendable at hpop
      split at hpop
      · cases hpop
      · next rest hqueue =>
          cases hpop
          refine h.move h.recent (fun i => ?_) (fun i hi => (put_unknown hi).2) fun i s' hs' => ?_
          · unfold placed
            by_cases hi : i = id
            · subst hi
              rw [waiting_put, waiting_of_some hs, hqueue, List.map_cons, chunksIn_cons]
              rw [chunksIn_data ⟨i, item.offset, item.fin, item.data⟩, List.singleton_append]
              show _ + v.inFlight i + ↑(v.acknowledged i) + _ = _
              rw [← Multiset.cons_coe, ← Multiset.cons_coe, Multiset.add_cons, Multiset.cons_add,
                Multiset.cons_add, Multiset.cons_add]
              rfl
            · rw [waiting_put_of_ne hi, chunksIn_cons, chunksIn_data_of_ne _ (Ne.symm hi)]
              rfl
          · rcases put_cases hs' with ⟨rfl, rfl⟩ | ⟨_, hs'⟩
            · obtain ⟨_, _, _, hsum⟩ := h.known i s hs
              rw [hqueue, List.map_cons, List.sum_cons] at hsum
              refine ⟨s, hs, rfl, rfl, ?_⟩
              show s.send.queuedBytes - item.data.length = (rest.map (·.data.length)).sum
              omega
            · exact ⟨s', hs', rfl, rfl, (h.known i s' hs').2.2.2⟩

/-- A frame in hand goes back to where it came from. -/
theorem putBack (h : v.Holds (q :: hand) w)
    (hknown : ∀ d, q.frame = .streamData d → (v.streams d.streamId).isSome) (n : Nat) :
    (v.putBack q.frame n).Holds hand w := by
  unfold View.putBack
  split
  · next d hd =>
      have hq : q = ⟨.streamData d, q.retransmitCount⟩ := by
        rw [← hd]
      obtain ⟨s, hs⟩ := Option.isSome_iff_exists.1 (hknown d hd)
      rw [hs]
      dsimp only
      have hle := h.queued_le hs
      rw [chunksIn_cons, hq, chunksIn_data, List.singleton_append, List.map_cons,
        List.sum_cons] at hle
      refine h.move h.recent (fun i => ?_) (fun i hi => (put_unknown hi).2) fun i s' hs' => ?_
      · unfold placed
        by_cases hi : i = d.streamId
        · subst hi
          rw [waiting_put, waiting_of_some hs, chunksIn_cons _ q, hq, chunksIn_data,
            List.singleton_append]
          show ↑(d :: s.send.queue.map (·.chunk d.streamId)) + v.inFlight d.streamId +
            ↑(v.acknowledged d.streamId) + _ = _
          rw [← Multiset.cons_coe, ← Multiset.cons_coe, Multiset.add_cons, Multiset.cons_add,
            Multiset.cons_add, Multiset.cons_add]
        · rw [waiting_put_of_ne hi, chunksIn_cons _ q, hq, chunksIn_data_of_ne _ (Ne.symm hi)]
          rfl
      · rcases put_cases hs' with ⟨rfl, rfl⟩ | ⟨_, hs'⟩
        · obtain ⟨hlen, hmax, _, hsum⟩ := h.known d.streamId s hs
          refine ⟨s, hs, rfl, rfl, ?_⟩
          show saturatingAdd s.send.queuedBytes d.data.length =
            d.data.length + (s.send.queue.map (·.data.length)).sum
          unfold saturatingAdd
          omega
        · exact ⟨s', hs', rfl, rfl, (h.known i s' hs').2.2.2⟩
  · next hother =>
      refine h.move h.recent (fun id => ?_) (fun _ hid => hid) fun id s hs =>
        ⟨s, hs, rfl, rfl, (h.known id s hs).2.2.2⟩
      unfold placed
      rw [chunksIn_cons _ q, chunksIn_other hother]
      rfl

theorem putBackAll {frames : List QueuedFrame} (h : v.Holds (frames ++ hand) w)
    (hknown : ∀ q ∈ frames, ∀ d, q.frame = .streamData d → (v.streams d.streamId).isSome)
    (n : Nat) : (v.putBackAll n frames).Holds hand w := by
  induction frames generalizing v with
  | nil => exact h
  | cons q rest ih =>
      refine ih (h.putBack (hknown q List.mem_cons_self) n) fun q' hq' d hd => ?_
      have hsome := hknown q' (List.mem_cons_of_mem q hq') d hd
      rw [Option.isSome_iff_ne_none] at hsome ⊢
      exact fun hnone => hsome ((v.outward_putBack q.frame n).unknown.1 hnone)

/-- A packet is taken off the unacknowledged ones. -/
theorem forget {n : Nat} {sp : SentPacket} (h : v.Holds hand w) (hs : v.unacked n = some sp) :
    (v.forget n).Holds (sp.frames ++ hand) w := by
  refine h.move (fun m sp' hm => ?_) (fun id => ?_) (fun _ hid => hid) fun id s hs =>
    ⟨s, hs, rfl, rfl, (h.known id s hs).2.2.2⟩
  · by_cases hmn : m = n
    · rw [hmn, forget_self] at hm
      cases hm
    · rw [forget_of_ne hmn] at hm
      exact h.recent m sp' hm
  · unfold placed
    rw [← inFlight_forget hs (h.recent n sp hs) id, chunksIn_append, ← Multiset.coe_add]
    show ↑(v.waiting id) + (v.forget n).inFlight id + ↑(v.acknowledged id) + _ = _
    abel

/-- The frames of a packet in hand are acknowledged. -/
theorem acknowledge {sp : SentPacket} (h : v.Holds (sp.frames ++ hand) w) :
    ({ v with acked := v.acked ++ [sp] } : View).Holds hand w := by
  refine h.move h.recent (fun id => ?_) (fun _ hid => hid) fun id s hs =>
    ⟨s, hs, rfl, rfl, (h.known id s hs).2.2.2⟩
  have hacked : ({ v with acked := v.acked ++ [sp] } : View).acknowledged id =
      v.acknowledged id ++ chunksIn id sp.frames := by
    unfold acknowledged
    rw [List.flatMap_append, List.flatMap_singleton]
  unfold placed
  rw [hacked, chunksIn_append, ← Multiset.coe_add, ← Multiset.coe_add]
  show ↑(v.waiting id) + v.inFlight id + (↑(v.acknowledged id) + _) + _ = _
  abel

/-- A packet goes out; nothing of it is kept. -/
theorem ship (h : v.Holds hand w) (p : Packet) : (v.ship p).Holds hand w := by
  refine h.move (fun n sp hs => Nat.lt_succ_of_lt (h.recent n sp hs)) (fun id => ?_)
    (fun _ hid => hid) fun id s hs => ⟨s, hs, rfl, rfl, (h.known id s hs).2.2.2⟩
  unfold placed
  rw [inFlight_ship h.unused]
  rfl

/-- A packet goes out with what is in hand, and is kept. -/
theorem track {p : Packet} {sp : SentPacket} (h : v.Holds (sp.frames ++ hand) w) :
    ((v.ship p).track v.next sp).Holds hand w := by
  refine h.move (fun n sp' hs => ?_) (fun id => ?_) (fun _ hid => hid) fun id s hs =>
    ⟨s, hs, rfl, rfl, (h.known id s hs).2.2.2⟩
  · by_cases hn : n = v.next
    · rw [hn]
      exact Nat.lt_succ_self _
    · rw [track_of_ne hn] at hs
      exact Nat.lt_succ_of_lt (h.recent n sp' hs)
  · unfold placed
    rw [inFlight_track, chunksIn_append, ← Multiset.coe_add]
    show ↑(v.waiting id) + (v.inFlight id + _) + ↑(v.acknowledged id) + _ = _
    abel

/-- What is in hand may be dropped when it carries no data. -/
theorem drop (h : v.Holds (q :: hand) w) (hq : ∀ d, q.frame ≠ .streamData d) :
    v.Holds hand w := by
  refine h.move h.recent (fun id => ?_) (fun _ hid => hid) fun id s hs =>
    ⟨s, hs, rfl, rfl, (h.known id s hs).2.2.2⟩
  unfold placed
  rw [chunksIn_cons, chunksIn_other hq]
  rfl

/-- A record whose sending side is as it was may be written back. -/
theorem put {id : Nat} {s s' : StreamRecord} (h : v.Holds hand w) (hs : v.streams id = some s)
    (hqueue : s'.send.queue = s.send.queue) (hnext : s'.send.nextOffset = s.send.nextOffset)
    (hfin : s'.send.finRequested = s.send.finRequested)
    (hbytes : s'.send.queuedBytes = s.send.queuedBytes) : (v.put id s').Holds hand w := by
  refine h.move h.recent (fun i => ?_) (fun i hi => (put_unknown hi).2) fun i s'' hs'' => ?_
  · have hwaiting : (v.put id s').waiting i = v.waiting i := by
      by_cases hi : i = id
      · rw [hi, waiting_put, waiting_of_some hs, hqueue]
      · exact waiting_put_of_ne hi
    unfold placed
    rw [hwaiting]
    rfl
  · rcases put_cases hs'' with ⟨rfl, rfl⟩ | ⟨_, hs''⟩
    · refine ⟨s, hs, hnext, hfin, ?_⟩
      rw [hbytes, hqueue]
      exact (h.known i s hs).2.2.2
    · exact ⟨s'', hs'', rfl, rfl, (h.known i s'' hs'').2.2.2⟩

/-- A new stream has nothing to send. -/
theorem create {id : Nat} {s : StreamRecord} (h : v.Holds hand w) (hs : v.streams id = none)
    (hsend : s.send.nextOffset = 0 ∧ s.send.queuedBytes = 0 ∧ s.send.finRequested = false ∧
      s.send.queue = []) : (v.put id s).Holds hand w := by
  obtain ⟨hnext, hbytes, hfin, hqueue⟩ := hsend
  have hplaced : ∀ i, (v.put id s).placed hand i = v.placed hand i := fun i => by
    have hwaiting : (v.put id s).waiting i = v.waiting i := by
      by_cases hi : i = id
      · rw [hi, waiting_put, hqueue]
        unfold waiting
        rw [hs]
        rfl
      · exact waiting_put_of_ne hi
    unfold placed
    rw [hwaiting]
    rfl
  refine ⟨h.recent, fun i => ?_, fun i => ?_, fun i hi => h.unknown i (put_unknown hi).2,
    fun i s' hs' => ?_⟩
  · rw [hplaced]
    exact h.tiles i
  · rw [hplaced]
    exact h.ends i
  · rcases put_cases hs' with ⟨rfl, rfl⟩ | ⟨_, hs'⟩
    · obtain ⟨hnone, hend⟩ := h.unknown i hs
      rw [hnext, hfin, hbytes, hqueue, hnone, hend]
      exact ⟨rfl, Nat.zero_le _, rfl, rfl⟩
    · exact h.known i s' hs'

/-- A write adds chunks for what it is given. -/
theorem write {id n maxBuffer maxChunk : Nat} {s : StreamRecord} {data : Bytes} {fin : Bool}
    {send : SendStream} (h : v.Holds hand w) (hs : v.streams id = some s)
    (hw : s.send.write data fin maxBuffer maxChunk = .ok (n, send)) :
    (v.put id { s with send := send }).Holds hand (w.add id data fin) := by
  obtain ⟨_, hopen, hnext, hmax, hfin, hbytes, items, hqueue, hcuts⟩ := SendStream.write_ok hw
  obtain ⟨hlen, _, hended, hsum⟩ := h.known id s hs
  have hplaced : (v.put id { s with send := send }).placed hand id =
      v.placed hand id + ↑(items.map (·.chunk id)) := by
    unfold placed
    rw [waiting_put, waiting_of_some hs, hqueue, List.map_append, ← Multiset.coe_add]
    show _ + v.inFlight id + ↑(v.acknowledged id) + _ = _
    abel
  have hother : ∀ i, i ≠ id → (v.put id { s with send := send }).placed hand i =
      v.placed hand i := fun i hi => by
    unfold placed
    rw [waiting_put_of_ne hi]
    rfl
  refine ⟨h.recent, fun i => ?_, fun i => ?_, fun i hi => ?_, fun i s' hs' => ?_⟩
  · by_cases hi : i = id
    · subst hi
      have htiles := hcuts.tiles _ _ hlen.symm (h.tiles i)
      rw [hplaced, Multiset.map_add, Multiset.map_coe, List.map_map]
      show Tiles _ (Function.update w.bytes i _ i)
      rw [Function.update_self]
      exact htiles
    · rw [hother i hi]
      show Tiles _ (Function.update w.bytes id _ i)
      rw [Function.update_of_ne hi]
      exact h.tiles i
  · by_cases hi : i = id
    · subst hi
      have hold := h.ends i
      rw [← hended, hopen, if_neg Bool.false_ne_true] at hold
      have hnew : (items.map (·.chunk i)).countP (·.fin) = if fin then 1 else 0 := by
        rw [List.countP_map]
        exact hcuts.ends
      rw [hplaced, Multiset.countP_add, hold, Nat.zero_add, Multiset.coe_countP]
      show _ = if Function.update w.ended i _ i then 1 else 0
      rw [Function.update_self, ← hended, hopen, Bool.false_or]
      simpa only [Bool.decide_eq_true] using hnew
    · rw [hother i hi]
      show _ = if Function.update w.ended id _ i then 1 else 0
      rw [Function.update_of_ne hi]
      exact h.ends i
  · obtain ⟨hne, hnone⟩ := put_unknown hi
    show Function.update w.bytes id _ i = [] ∧ Function.update w.ended id _ i = false
    rw [Function.update_of_ne hne, Function.update_of_ne hne]
    exact h.unknown i hnone
  · show _ = (Function.update w.bytes id _ i).length ∧ _ ∧ _ = Function.update w.ended id _ i ∧ _
    rcases put_cases hs' with ⟨rfl, rfl⟩ | ⟨hne, hs'⟩
    · rw [Function.update_self, Function.update_self, List.length_append]
      refine ⟨?_, hmax, ?_, ?_⟩
      · show send.nextOffset = _
        omega
      · show send.finRequested = _
        rw [hfin, ← hended, hopen]
        rfl
      · show send.queuedBytes = (send.queue.map (·.data.length)).sum
        have hnew := hcuts.length
        rw [hqueue, List.map_append, List.sum_append, hbytes]
        have hle := h.queued_le hs
        unfold saturatingAdd
        omega
    · rw [Function.update_of_ne hne, Function.update_of_ne hne]
      exact h.known i s' hs'

end Holds

end View

/-- Every edit but a write moves chunks from one place to another. -/
theorem Edit.holds {w : Written} (e : Edit suite False k v v')
    (hk : ∀ id data fin, k ≠ .writing id data fin) (hapart : v.Apart) (h : v.Holds [] w) :
    v'.Holds [] w := by
  cases e with
  | opened id hc hst hs => exact h.create hs ⟨rfl, rfl, rfl, rfl⟩
  | accept p o hc hf hst hs => exact h.create hs ⟨rfl, rfl, rfl, rfl⟩
  | write id data fin s maxBuffer maxChunk n send hc => exact absurd hc (hk id data fin)
  | read id maxLen s hc hs =>
      obtain ⟨pending, queued, receive, heq⟩ := v.read_eq id maxLen s
      rw [heq]
      have hput : (v.put id (s.read maxLen).2).Holds _ _ := h.put hs rfl rfl rfl rfl
      exact hput.keep rfl rfl rfl rfl
  | insert p d s newBytes n recv hc hf hst hs =>
      have hput : (v.put d.streamId { s with recv := recv }).Holds _ _ := h.put hs rfl rfl rfl rfl
      exact hput.keep rfl rfl rfl rfl
  | reject p d s e recv hl => exact hl.elim
  | finish id s hs => exact h.put hs rfl rfl rfl rfl
  | limit p u s hc hf hs => exact h.put hs rfl rfl rfl rfl
  | reset p r s hc hf hs => exact h.put hs rfl rfl rfl rfl
  | ack p a n sp hc hf hcov hs => exact (h.forget hs).acknowledge
  | lose n count sp hs hcount hknown =>
      refine View.Holds.putBackAll (v := v.forget n) ?_ (fun q hq => ?_) count
      · exact (h.forget hs).perm ((List.reverse_perm _).symm.append_right _)
      · exact hknown q (List.mem_reverse.1 hq)
  | drop n count m sp hl => exact hl.elim
  | sendAck a => exact h.ship _
  | emit q v₁ sp ht henc hflow hframes =>
      have htaken := h.takes hapart ht
      have hnext : (v₁.account q).next = v.next := by
        obtain ⟨sent, heq⟩ := v₁.account_eq q
        rw [heq]
        exact ht.outward.counts.2
      have haccount : (v₁.account q).Holds (sp.frames ++ []) w := by
        obtain ⟨sent, heq⟩ := v₁.account_eq q
        rw [heq, hframes]
        exact htaken.keep rfl rfl rfl rfl
      rw [← hnext]
      exact haccount.track
  | pass q v₁ ht henc hflow htracked =>
      have hq : ∀ d, q.frame ≠ .streamData d := fun d hd => by
        have huntracked := htracked.resolve_left id
        rw [hd] at huntracked
        cases huntracked
      have haccount : (v₁.account q).Holds [] w := by
        obtain ⟨sent, heq⟩ := v₁.account_eq q
        rw [heq]
        exact ((h.takes hapart ht).drop hq).keep rfl rfl rfl rfl
      exact haccount.ship _
  | lost q v₁ next hl => exact hl.elim
  | back q v₁ ht =>
      refine (h.takes hapart ht).putBack (fun d hd => ?_) _
      cases ht with
      | pending _ rest hp =>
          refine absurd hd (hapart.pending q ?_ d)
          rw [hp]
          exact List.mem_cons_self
      | stream id s item send hs hpop =>
          cases hd
          simp
  | _ => exact h.keep rfl rfl rfl rfl

end DartUdp.Core
