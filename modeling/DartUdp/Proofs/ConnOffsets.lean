import Mathlib.Data.Finset.Card
import DartUdp.Proofs.ConnKeys
import DartUdp.Proofs.ConnSend

/-!
# What the connection offset counts

The limit of a connection is on the bytes sent for the first time. A chunk
counts when it goes out and was not lost before. So the offset is the number of
bytes that have gone out at all: the chunks of a stream do not overlap, a chunk
with no loss behind it has never gone out, and one with a loss has.

The module is for `written_bytes_conserved`. `View.Accounts` says what the offset
has counted, beside the three places of a chunk in `View.Holds`; `Edit.conserves`
keeps both, and `final_conserves` carries them through a run.
-/

namespace DartUdp.Core

open DartUdp.Lib DartUdp.Udp

variable {suite : Suite} {L : Prop} {k : Cause} {v v' : View} {c : Connection}
  {w : Written} {sent : Finset (Nat × Nat)} {q : QueuedFrame}

/-- The bytes of a chunk, each by its stream and its offset. -/
def positionsOf (d : StreamData) : List (Nat × Nat) :=
  (List.range d.data.length).map fun i => (d.streamId, d.offset + i)

/-- The stream bytes in a frame. -/
def framePositions : Frame → List (Nat × Nat)
  | .streamData d => positionsOf d
  | _ => []

/-- The stream bytes that went out in the packets. -/
def emittedBytes (packets : List Packet) : Finset (Nat × Nat) :=
  (packets.flatMap fun p => p.frames.flatMap framePositions).toFinset

theorem mem_positions {d : StreamData} {x : Nat × Nat} :
    x ∈ positionsOf d ↔ x.1 = d.streamId ∧ (pieceOf d).Covers x.2 := by
  unfold positionsOf Piece.Covers
  rw [List.mem_map]
  constructor
  · rintro ⟨i, hi, rfl⟩
    rw [List.mem_range] at hi
    exact ⟨rfl, Nat.le_add_right _ _, Nat.add_lt_add_left hi _⟩
  · obtain ⟨id, n⟩ := x
    rintro ⟨rfl, hle, hlt⟩
    refine ⟨n - d.offset, List.mem_range.2 ?_, ?_⟩
    · show n - d.offset < (pieceOf d).content.length
      have hle' : (pieceOf d).offset = d.offset := rfl
      omega
    · have hle' : d.offset ≤ n := hle
      rw [Nat.add_sub_cancel' hle']

theorem card_positions (d : StreamData) : (positionsOf d).toFinset.card = d.data.length := by
  have hnodup : (positionsOf d).Nodup := List.nodup_range.map fun i j h => by
    have := congrArg Prod.snd h
    dsimp only at this
    omega
  rw [List.toFinset_card_of_nodup hnodup, positionsOf, List.length_map, List.length_range]

theorem emittedBytes_append (packets packets' : List Packet) :
    emittedBytes (packets ++ packets') = emittedBytes packets ∪ emittedBytes packets' := by
  unfold emittedBytes
  rw [List.flatMap_append, List.toFinset_append]

/-- A packet with one frame. -/
theorem emittedBytes_concat {packets : List Packet} {p : Packet} {f : Frame} (h : p.frames = [f]) :
    emittedBytes (packets ++ [p]) = emittedBytes packets ∪ (framePositions f).toFinset := by
  rw [emittedBytes_append]
  congr 1
  unfold emittedBytes
  rw [List.flatMap_singleton, h, List.flatMap_singleton]

theorem framePositions_other {f : Frame} (h : ∀ d, f ≠ .streamData d) : framePositions f = [] := by
  cases f with
  | streamData d => exact absurd rfl (h d)
  | _ => rfl

/-- A chunk that waits has gone out when it was lost before, and has not when
it was not. -/
def Accounted (sent : Finset (Nat × Nat)) (d : StreamData) (count : Nat) : Prop :=
  ∀ x ∈ positionsOf d, x ∈ sent ↔ count ≠ 0

/-- The offset counts the bytes that have gone out. -/
structure View.Accounts (v : View) (sent : Finset (Nat × Nat)) (w : Written) : Prop where
  offset : sent.card = v.send.connectionSentOffset
  written : ∀ x ∈ sent, x.2 < (w.bytes x.1).length
  queues : ∀ id s, v.streams id = some s → ∀ item ∈ s.send.queue,
    Accounted sent (item.chunk id) item.retransmitCount
  flown : ∀ n sp, v.unacked n = some sp → ∀ q ∈ sp.frames, ∀ d, q.frame = .streamData d →
    ∀ x ∈ positionsOf d, x ∈ sent

namespace View.Accounts

theorem keep (h : v.Accounts sent w) (hs : v'.streams = v.streams) (hu : v'.unacked = v.unacked)
    (ho : v'.send.connectionSentOffset = v.send.connectionSentOffset) : v'.Accounts sent w := by
  refine ⟨h.offset.trans ho.symm, h.written, ?_, ?_⟩
  · rw [hs]
    exact h.queues
  · rw [hu]
    exact h.flown

theorem put {id : Nat} {s : StreamRecord} (h : v.Accounts sent w)
    (hs : ∀ item ∈ s.send.queue, Accounted sent (item.chunk id) item.retransmitCount) :
    (v.put id s).Accounts sent w := by
  refine ⟨h.offset, h.written, fun i s' hs' => ?_, h.flown⟩
  rcases put_cases hs' with ⟨rfl, rfl⟩ | ⟨_, hs'⟩
  · exact hs
  · exact h.queues i s' hs'

theorem forget (h : v.Accounts sent w) (n : Nat) : (v.forget n).Accounts sent w := by
  refine ⟨h.offset, h.written, h.queues, fun m sp hm => ?_⟩
  by_cases hmn : m = n
  · rw [hmn, forget_self] at hm
    cases hm
  · rw [forget_of_ne hmn] at hm
    exact h.flown m sp hm

theorem putBack {f : Frame} {n : Nat} (h : v.Accounts sent w)
    (hf : ∀ d, f = .streamData d → Accounted sent d n) : (v.putBack f n).Accounts sent w := by
  unfold View.putBack
  split
  · next d =>
      split
      · next s hs =>
          refine h.put fun item hitem => ?_
          rcases List.mem_cons.1 hitem with rfl | hitem
          · exact hf d rfl
          · exact h.queues d.streamId s hs item hitem
      · exact h
  · exact h.keep rfl rfl rfl

theorem putBackAll {n : Nat} {frames : List QueuedFrame} (h : v.Accounts sent w)
    (hf : ∀ q ∈ frames, ∀ d, q.frame = .streamData d → Accounted sent d n) :
    (v.putBackAll n frames).Accounts sent w := by
  induction frames generalizing v with
  | nil => exact h
  | cons q rest ih =>
      exact ih (h.putBack (hf q List.mem_cons_self)) fun q' hq' =>
        hf q' (List.mem_cons_of_mem q hq')

/-- The chunk taken is accounted for, and so are those left. -/
theorem takes (h : v.Accounts sent w) (hapart : v.Apart) (ht : Takes v q v') :
    v'.Accounts sent w ∧ ∀ d, q.frame = .streamData d → Accounted sent d q.retransmitCount := by
  cases ht with
  | pending _ rest hp =>
      refine ⟨h.keep rfl rfl rfl, fun d hd => absurd hd (hapart.pending q ?_ d)⟩
      rw [hp]
      exact List.mem_cons_self
  | stream id s item send hs hpop =>
      unfold SendStream.popSendable at hpop
      split at hpop
      · cases hpop
      · next rest hqueue =>
          cases hpop
          have hqueues := h.queues id s hs
          rw [hqueue] at hqueues
          refine ⟨h.put fun item' hitem => hqueues item' (List.mem_cons_of_mem item hitem),
            fun d hd => ?_⟩
          cases hd
          exact hqueues item List.mem_cons_self

/-- A write queues bytes that have not gone out. -/
theorem write {id n maxBuffer maxChunk : Nat} {s : StreamRecord} {data : Bytes} {fin : Bool}
    {send : SendStream} (h : v.Accounts sent w) (hs : v.streams id = some s)
    (hlen : s.send.nextOffset = (w.bytes id).length)
    (hw : s.send.write data fin maxBuffer maxChunk = .ok (n, send)) :
    (v.put id { s with send := send }).Accounts sent (w.add id data fin) := by
  obtain ⟨_, _, _, _, _, _, items, hqueue, hcuts⟩ := SendStream.write_ok hw
  have hput : (v.put id { s with send := send }).Accounts sent w := by
    refine h.put fun item hitem => ?_
    rw [hqueue] at hitem
    rcases List.mem_append.1 hitem with hitem | hitem
    · exact h.queues id s hs item hitem
    · obtain ⟨hcount, hle⟩ := hcuts.fresh item hitem
      intro x hx
      rw [hcount]
      refine ⟨fun hmem => ?_, fun hne => absurd rfl hne⟩
      obtain ⟨hid, hfrom, _⟩ := mem_positions.1 hx
      have hlt := h.written x hmem
      have hid' : x.1 = id := hid
      have hfrom' : item.offset ≤ x.2 := hfrom
      rw [hid'] at hlt
      omega
  refine ⟨hput.offset, fun x hx => ?_, hput.queues, hput.flown⟩
  have hlt := h.written x hx
  show x.2 < (Function.update w.bytes id (w.bytes id ++ data) x.1).length
  by_cases hid : x.1 = id
  · rw [hid] at hlt
    rw [hid, Function.update_self, List.length_append]
    omega
  · rw [Function.update_of_ne hid]
    exact hlt

end View.Accounts

/-- The chunk in hand is one piece of the stream, besides those in its places. -/
theorem View.Holds.in_hand {d : StreamData} {n : Nat} (h : v.Holds [⟨.streamData d, n⟩] w) :
    Tiles (pieceOf d ::ₘ (v.placed [] d.streamId).map pieceOf) (w.bytes d.streamId) := by
  have htiles := h.tiles d.streamId
  have hplaced : v.placed [⟨.streamData d, n⟩] d.streamId = d ::ₘ v.placed [] d.streamId := by
    unfold placed
    rw [chunksIn_data, chunksIn_nil, ← Multiset.cons_coe, Multiset.add_cons]
  rw [hplaced, Multiset.map_cons] at htiles
  exact htiles

/-- The chunk in hand and one that waits have no byte in common. -/
theorem View.Holds.apart_in_hand {d : StreamData} {n id : Nat} {s : StreamRecord}
    {item : PendingData} {x : Nat × Nat} (h : v.Holds [⟨.streamData d, n⟩] w)
    (hs : v.streams id = some s) (hitem : item ∈ s.send.queue)
    (hx : x ∈ positionsOf (item.chunk id)) : x ∉ positionsOf d := by
  intro hd
  obtain ⟨hid, hcover⟩ := mem_positions.1 hx
  obtain ⟨hid', hcover'⟩ := mem_positions.1 hd
  have heq : id = d.streamId := hid.symm.trans hid'
  subst heq
  refine h.in_hand.not_covers hcover' (Multiset.mem_map_of_mem pieceOf ?_) hcover
  unfold placed
  refine Multiset.mem_add.2 (.inl (Multiset.mem_add.2 (.inl (Multiset.mem_add.2 (.inl ?_)))))
  rw [waiting_of_some hs]
  exact Multiset.mem_coe.2 (List.mem_map_of_mem hitem)

theorem SendFlowControl.sent_of_canSend {flow : SendFlowControl} {length : Nat}
    (h : flow.canSend length false = true) :
    (flow.accountNewData length).connectionSentOffset = flow.connectionSentOffset + length := by
  unfold SendFlowControl.canSend checkedAdd at h
  unfold SendFlowControl.accountNewData saturatingAdd
  dsimp only
  split at h
  · omega
  · cases h

/-- A chunk in hand goes out. When it does so for the first time it counts, and
it has no byte in common with any other chunk. -/
theorem View.Accounts.data {d : StreamData} {n : Nat} (h : v.Accounts sent w)
    (hholds : v.Holds [⟨.streamData d, n⟩] w) (hd : Accounted sent d n)
    (hflow : v.send.canSend d.data.length (n != 0) = true) :
    (v.account ⟨.streamData d, n⟩).Accounts (sent ∪ (positionsOf d).toFinset) w := by
  have hstreams : (v.account ⟨.streamData d, n⟩).streams = v.streams ∧
      (v.account ⟨.streamData d, n⟩).unacked = v.unacked := by
    obtain ⟨offset, heq⟩ := v.account_eq ⟨.streamData d, n⟩
    rw [heq]
    exact ⟨rfl, rfl⟩
  refine ⟨?_, fun x hx => ?_, fun id s hs item hitem x hx => ?_,
    fun m sp hsp q hq d' hd' x hx => ?_⟩
  · cases n with
    | zero =>
        have hdisjoint : Disjoint sent (positionsOf d).toFinset :=
          Finset.disjoint_right.2 fun x hx hsent =>
            (hd x (List.mem_toFinset.1 hx)).1 hsent rfl
        rw [Finset.card_union_of_disjoint hdisjoint, card_positions, h.offset]
        exact (SendFlowControl.sent_of_canSend hflow).symm
    | succ n =>
        have hsub : (positionsOf d).toFinset ⊆ sent := fun x hx =>
          (hd x (List.mem_toFinset.1 hx)).2 (Nat.succ_ne_zero n)
        rw [Finset.union_eq_left.2 hsub]
        exact h.offset
  · rcases Finset.mem_union.1 hx with hx | hx
    · exact h.written x hx
    · obtain ⟨hid, hcover⟩ := mem_positions.1 (List.mem_toFinset.1 hx)
      rw [hid]
      exact hholds.in_hand.covers_lt (Multiset.mem_cons_self _ _) hcover
  · rw [hstreams.1] at hs
    have hnot := hholds.apart_in_hand hs hitem hx
    rw [Finset.mem_union, List.mem_toFinset, or_iff_left hnot]
    exact h.queues id s hs item hitem x hx
  · rw [hstreams.2] at hsp
    exact Finset.mem_union_left _ (h.flown m sp hsp q hq d' hd' x hx)

/-- A frame in hand goes out in a packet that is kept. -/
theorem View.Accounts.emit {sp : SentPacket} {p : Packet} (h : v.Accounts sent w)
    (hholds : v.Holds [q] w)
    (hq : ∀ d, q.frame = .streamData d → Accounted sent d q.retransmitCount)
    (hflow : ∀ d, q.frame = .streamData d →
      v.send.canSend d.data.length (q.retransmitCount != 0) = true)
    (hframes : sp.frames = [q]) :
    (((v.account q).ship p).track v.next sp).Accounts
      (sent ∪ (framePositions q.frame).toFinset) w := by
  have haccount : (v.account q).Accounts (sent ∪ (framePositions q.frame).toFinset) w := by
    obtain ⟨f, n⟩ := q
    cases f with
    | streamData d => exact h.data hholds (hq d rfl) (hflow d rfl)
    | _ =>
        rw [framePositions_other (fun d => Frame.noConfusion), List.toFinset_nil,
          Finset.union_empty]
        exact h
  refine ⟨haccount.offset, haccount.written, haccount.queues, fun m sp' hm q' hq' d hd x hx => ?_⟩
  by_cases hmn : m = v.next
  · rw [hmn, track_self] at hm
    cases hm
    rw [hframes] at hq'
    rw [List.mem_singleton.1 hq'] at hd
    refine Finset.mem_union_right _ (List.mem_toFinset.2 ?_)
    rw [hd]
    exact hx
  · rw [track_of_ne hmn] at hm
    exact haccount.flown m sp' hm q' hq' d hd x hx

theorem View.Outward.sending (h : v.Outward v') :
    v'.send = v.send ∧ v'.sends = v.sends ∧ v'.next = v.next := by
  obtain ⟨streams, pending, rfl, _⟩ := h
  exact ⟨rfl, rfl, rfl⟩

theorem View.account_same (v : View) (q : QueuedFrame) :
    (v.account q).sends = v.sends ∧ (v.account q).next = v.next := by
  obtain ⟨sent, heq⟩ := v.account_eq q
  rw [heq]
  exact ⟨rfl, rfl⟩

/-- The books of a view, with the packets that were drained before. -/
structure View.Conserves (v : View) (earlier : List Packet) (w : Written) : Prop where
  apart : v.Apart
  holds : v.Holds [] w
  accounts : v.Accounts (emittedBytes (earlier ++ v.sends)) w

theorem Edit.conserves {earlier : List Packet} (e : Edit suite False k v v')
    (hk : ∀ id data fin, k ≠ .writing id data fin) (hdrain : k ≠ .draining)
    (h : v.Conserves earlier w) : v'.Conserves earlier w := by
  refine ⟨e.apart h.apart, e.holds hk h.apart h.holds, ?_⟩
  have ha := h.accounts
  cases e with
  | answerClient p hello keys =>
      refine ha.keep rfl rfl ?_
      unfold View.answerClient
      dsimp only
      split <;> rfl
  | opened id hc hst hs => exact ha.put nofun
  | accept p o hc hf hst hs => exact ha.put nofun
  | write id data fin s maxBuffer maxChunk n send hc => exact absurd hc (hk id data fin)
  | read id maxLen s hc hs =>
      obtain ⟨pending, queued, receive, heq⟩ := v.read_eq id maxLen s
      rw [heq]
      exact (ha.put (s := (s.read maxLen).2) (ha.queues id s hs)).keep rfl rfl rfl
  | insert p d s newBytes n recv hc hf hst hs =>
      exact (ha.put (s := { s with recv := recv }) (ha.queues d.streamId s hs)).keep rfl rfl rfl
  | reject p d s e recv hl => exact hl.elim
  | finish id s hs => exact ha.put (ha.queues id s hs)
  | limit p u s hc hf hs => exact ha.put (ha.queues u.streamId s hs)
  | reset p r s hc hf hs => exact ha.put (ha.queues r.streamId s hs)
  | ack p a n sp hc hf hcov hs => exact (ha.forget n).keep rfl rfl rfl
  | lose n count sp hs hcount hknown =>
      have hlost : ∀ q ∈ sp.frames.reverse, ∀ d, q.frame = .streamData d →
          Accounted (emittedBytes (earlier ++ v.sends)) d count := fun q hq d hd x hx =>
        ⟨fun _ => Nat.ne_of_gt hcount,
          fun _ => ha.flown n sp hs q (List.mem_reverse.1 hq) d hd x hx⟩
      rw [(View.outward_putBackAll (v.forget n) count sp.frames.reverse).counts.1]
      exact (ha.forget n).putBackAll hlost
  | drop n count m sp hl => exact hl.elim
  | sendAck a =>
      show View.Accounts _ (emittedBytes (earlier ++ (v.sends ++ [_]))) w
      rw [← List.append_assoc, emittedBytes_concat rfl,
        framePositions_other (fun d => Frame.noConfusion), List.toFinset_nil, Finset.union_empty]
      exact ha.keep rfl rfl rfl
  | emit q v₁ sp ht henc hflow hframes =>
      obtain ⟨ha₁, hq⟩ := ha.takes h.apart ht
      obtain ⟨hsend, hsends, hnext⟩ := ht.outward.sending
      rw [← hsend] at hflow
      show View.Accounts _
        (emittedBytes (earlier ++ ((v₁.account q).sends ++ [v.packetFor q.frame]))) w
      rw [(v₁.account_same q).1, hsends, ← List.append_assoc,
        emittedBytes_concat (p := v.packetFor q.frame) rfl, ← hnext]
      exact ha₁.emit (h.holds.takes h.apart ht) hq hflow hframes
  | pass q v₁ ht henc hflow htracked =>
      have hq : ∀ d, q.frame ≠ .streamData d := fun d hd => by
        have huntracked := htracked.resolve_left id
        rw [hd] at huntracked
        cases huntracked
      obtain ⟨ha₁, _⟩ := ha.takes h.apart ht
      obtain ⟨_, hsends, _⟩ := ht.outward.sending
      show View.Accounts _
        (emittedBytes (earlier ++ ((v₁.account q).sends ++ [v.packetFor q.frame]))) w
      rw [(v₁.account_same q).1, hsends, ← List.append_assoc,
        emittedBytes_concat (p := v.packetFor q.frame) rfl, framePositions_other hq,
        List.toFinset_nil, Finset.union_empty]
      have haccount : v₁.account q = v₁ := by
        unfold View.account
        split
        · exact absurd rfl (hq _)
        · rfl
      rw [haccount]
      exact ha₁.keep rfl rfl rfl
  | lost q v₁ next hl => exact hl.elim
  | back q v₁ ht =>
      obtain ⟨ha₁, hq⟩ := ha.takes h.apart ht
      rw [(ht.outward.trans (v₁.outward_putBack _ _)).counts.1]
      exact ha₁.putBack hq
  | drain hc => exact absurd hc hdrain
  | _ => exact ha.keep rfl rfl rfl

/-! ## Over a run -/

theorem Edits.conserves {earlier : List Packet} (h : Edits suite False k v v')
    (hk : ∀ id data fin, k ≠ .writing id data fin) (hdrain : k ≠ .draining)
    (hv : v.Conserves earlier w) : v'.Conserves earlier w := by
  induction h with
  | refl => exact hv
  | tail _ e ih => exact e.conserves hk hdrain ih

/-- What is written once the operation is done. -/
def Written.after (w : Written) : Op → Written
  | .writeStream id data fin => w.add id data fin
  | _ => w

theorem perform_conserves {op : Op} {earlier : List Packet}
    (hok : (answer (perform suite op) c).isSome) (h : c.view.Conserves earlier w) :
    (after (perform suite op) c).view.Conserves (earlier ++ drainedPackets suite op c)
      (w.after op) := by
  obtain ⟨r, hr⟩ := Option.isSome_iff_exists.1 hok
  have hedits := (perform_does suite op).answer hr
  by_cases hop : op = .drainOutput
  · subst hop
    refine ⟨h.apart.keep rfl rfl, h.holds.keep rfl rfl rfl rfl, ?_⟩
    show View.Accounts _ (emittedBytes ((earlier ++ packetsOf c.output) ++ [])) w
    rw [List.append_nil]
    exact h.accounts.keep rfl rfl rfl
  · have hnone : drainedPackets suite op c = [] := drainedPackets_eq_nil hop
    rw [hnone, List.append_nil]
    cases op with
    | drainOutput => exact absurd rfl hop
    | writeStream id data fin =>
        have hwrite : Ends (perform suite (.writeStream id data fin)) c
            (fun _ c' => c'.view.Conserves earlier (w.add id data fin)) fun _ _ => True := by
          refine ends_map.2 ((writeStream_ends suite id data fin).mono (fun n c' hn => ?_)
            fun _ _ _ => trivial)
          obtain ⟨s, send, maxBuffer, maxChunk, hs, _, _, hw, hflush⟩ := hn
          refine hflush.conserves nofun nofun ⟨h.apart.keep rfl rfl, h.holds.write hs hw, ?_⟩
          exact h.accounts.write hs (h.holds.known id s hs).1 hw
        exact hwrite.answer hr
    | onDatagramBytes bytes =>
        have hcause : (∀ id data fin,
            cause suite c (.onDatagramBytes bytes) ≠ .writing id data fin) ∧
            cause suite c (.onDatagramBytes bytes) ≠ .draining := by
          show (∀ id data fin, (decoded suite bytes c).elim Cause.other Cause.packet ≠ _) ∧
            (decoded suite bytes c).elim Cause.other Cause.packet ≠ _
          cases decoded suite bytes c <;> exact ⟨nofun, nofun⟩
        exact hedits.conserves hcause.1 hcause.2 h
    | _ => exact hedits.conserves nofun nofun h

/-- What is written over a run. -/
def Written.over (w : Written) (ops : List Op) : Written := ops.foldl Written.after w

theorem final_conserves (ops : List Op) {earlier : List Packet}
    (hok : succeeds suite c ops = true) (h : c.view.Conserves earlier w) :
    (final suite c ops).view.Holds [] (w.over ops) ∧
      (final suite c ops).view.Accounts (emittedBytes (earlier ++ emitted suite c ops))
        (w.over ops) := by
  induction ops generalizing c earlier w with
  | nil => exact ⟨h.holds, h.accounts⟩
  | cons op ops ih =>
      rw [succeeds, Bool.and_eq_true] at hok
      have hrest := ih hok.2 (perform_conserves hok.1 h)
      rw [List.append_assoc] at hrest
      exact hrest

theorem initial_conserves (suite : Suite) (role : ConnectionRole) {id : Nat}
    {config : ConnectionConfig} {handshake : HandshakeState}
    (hunused : handshake.Unused id config) :
    (View.initial suite role id config handshake).Conserves [] ⟨fun _ => [], fun _ => false⟩ := by
  refine ⟨initial_apart suite role hunused, ⟨nofun, fun id => ?_, fun id => ?_,
    fun _ _ => ⟨rfl, rfl⟩, nofun⟩, ⟨rfl, fun x hx => ?_, nofun, nofun⟩⟩
  · exact Tiles.nil
  · rfl
  · exact absurd hx (Finset.notMem_empty x)

/-- The bytes a run writes to the stream. -/
def writtenTo (id : Nat) : List Op → Bytes
  | [] => []
  | .writeStream streamId data _ :: ops =>
      if streamId = id then data ++ writtenTo id ops else writtenTo id ops
  | _ :: ops => writtenTo id ops

/-- A run asks for the end of the stream. -/
def endWritten (id : Nat) : List Op → Bool
  | [] => false
  | .writeStream streamId _ fin :: ops => streamId == id && fin || endWritten id ops
  | _ :: ops => endWritten id ops

theorem Written.over_eq (w : Written) (ops : List Op) (id : Nat) :
    (w.over ops).bytes id = w.bytes id ++ writtenTo id ops ∧
      (w.over ops).ended id = (w.ended id || endWritten id ops) := by
  induction ops generalizing w with
  | nil => exact ⟨(List.append_nil _).symm, (Bool.or_false _).symm⟩
  | cons op ops ih =>
      obtain ⟨hbytes, hended⟩ := ih (w.after op)
      show ((w.after op).over ops).bytes id = _ ∧ ((w.after op).over ops).ended id = _
      rw [hbytes, hended]
      cases op with
      | writeStream streamId data fin =>
          show Function.update w.bytes streamId _ id ++ _ = _ ∧
            (Function.update w.ended streamId _ id || _) = _
          rw [writtenTo, endWritten]
          by_cases hid : streamId = id
          · subst hid
            rw [Function.update_self, Function.update_self, if_pos rfl, List.append_assoc,
              Bool.or_assoc, beq_self_eq_true, Bool.true_and]
            exact ⟨rfl, rfl⟩
          · rw [Function.update_of_ne (Ne.symm hid), Function.update_of_ne (Ne.symm hid),
              if_neg hid, beq_false_of_ne hid, Bool.false_and, Bool.false_or]
            exact ⟨rfl, rfl⟩
      | _ => exact ⟨rfl, rfl⟩

/-- The chunks of a stream, wherever they are. -/
def Connection.places (c : Connection) (id : Nat) : List StreamData :=
  c.waiting id ++ c.inFlight id ++ c.acknowledged id

theorem placed_eq (h : c.view.Holds [] w) (id : Nat) :
    c.view.placed [] id = ↑(c.places id) := by
  have hwaiting : c.view.waiting id = c.waiting id := by
    unfold View.waiting Connection.waiting
    show (c.streams.streams[id]?).elim _ _ = _
    cases c.streams.streams[id]? <;> rfl
  have hflight : c.view.inFlight id = ↑(c.inFlight id) := by
    have hcoe : ∀ entries : List (Nat × SentPacket),
        ((entries.flatMap fun entry => chunksIn id entry.2.frames : List StreamData) :
          Multiset StreamData) =
        (entries.map fun entry => (↑(chunksIn id entry.2.frames) : Multiset StreamData)).sum := by
      intro entries
      induction entries with
      | nil => rfl
      | cons entry rest ih =>
          rw [List.flatMap_cons, ← Multiset.coe_add, ih, List.map_cons, List.sum_cons]
    unfold Connection.inFlight
    rw [hcoe]
    exact sum_range_getElem? c.transport.sent c.transport.nextPacketNumber h.recent
      fun packet => (↑(chunksIn id packet.frames) : Multiset StreamData)
  unfold View.placed Connection.places
  rw [hwaiting, hflight, chunksIn_nil, ← Multiset.coe_add, ← Multiset.coe_add]
  exact add_zero _

/-- The chunks of each stream tile what was written to it, its FIN goes with one
of them, and the counters agree. -/
structure Connection.Conserves (c : Connection) (written : Nat → Bytes) (ended : Nat → Bool)
    (packets : List Packet) : Prop where
  tiles : ∀ id, Tiles ↑((c.places id).map pieceOf) (written id)
  fin : ∀ id, (c.places id).countP (·.fin) = if ended id then 1 else 0
  counts : ∀ id s, c.streams.streams[id]? = some s →
    s.send.nextOffset = (written id).length ∧ s.send.finRequested = ended id ∧
      s.send.queuedBytes = ((c.waiting id).map (·.data.length)).sum
  offset : c.connectionSend.connectionSentOffset = (emittedBytes packets).card

/-- **Sender conservation.** Over every run whose operations answer, what waits,
what is in flight and what was acknowledged is what was written, each byte once. -/
theorem written_bytes_conserved (suite : Suite) (role : ConnectionRole) (config : ConnectionConfig)
    (c : Connection) (ops : List Op) (hfresh : Fresh suite role config c)
    (hok : succeeds suite c ops = true) :
    (final suite c ops).Conserves (fun id => writtenTo id ops) (fun id => endWritten id ops)
      (emitted suite c ops) := by
  obtain ⟨_, id, handshake, hunused, hedits⟩ := fresh_edits hfresh
  have hstart := hedits.conserves nofun nofun (initial_conserves suite role hunused)
  obtain ⟨hholds, haccounts⟩ := final_conserves ops hok hstart
  have hwritten := Written.over_eq ⟨fun _ => [], fun _ => false⟩ ops
  have hbytes : ∀ id, _ = writtenTo id ops := fun id => (hwritten id).1
  have hended : ∀ id, _ = endWritten id ops := fun id => ((hwritten id).2).trans (Bool.false_or _)
  refine ⟨fun id => ?_, fun id => ?_, fun id s hs => ?_, haccounts.offset.symm⟩
  · have htiles := hholds.tiles id
    rw [placed_eq hholds, hbytes, Multiset.map_coe] at htiles
    exact htiles
  · have hends := hholds.ends id
    rw [placed_eq hholds, hended, Multiset.coe_countP] at hends
    simpa only [Bool.decide_eq_true] using hends
  · obtain ⟨hnext, _, hfin, hqueued⟩ := hholds.known id s hs
    rw [hbytes] at hnext
    rw [hended] at hfin
    refine ⟨hnext, hfin, hqueued.trans ?_⟩
    have hwaiting : (final suite c ops).waiting id = s.send.queue.map (·.chunk id) := by
      unfold Connection.waiting
      rw [hs]
    rw [hwaiting, List.map_map]
    rfl

/-- A client that has met the server opens a stream, writes to it twice, learns
that the first packet arrived, and is drained. -/
def sampleSending : List Op :=
  [.onDatagram ⟨.handshake, ⟨ackElicitingFlag⟩, 7, 0, [.serverHello sampleServerHello]⟩,
    .openStream, .writeStream 0 [97, 98, 99] false, .writeStream 0 [100] true,
    .onDatagram ⟨.data, .empty, 7, 1, [.ack ⟨3, 0, [⟨3, 3⟩]⟩]⟩, .drainOutput]

theorem written_bytes_conserved_sample : ∃ c, Fresh sampleSuite .client {} c ∧
    (final sampleSuite c sampleSending).Conserves (fun id => writtenTo id sampleSending)
      (fun id => endWritten id sampleSending) (emitted sampleSuite c sampleSending) := by
  obtain ⟨c, hc, hok⟩ := of_checks (r := sampleConnection .client {})
    (p := fun c => succeeds sampleSuite c sampleSending) (by decide +kernel)
  have hfresh := sampleConnection_fresh hc
  exact ⟨c, hfresh,
    written_bytes_conserved sampleSuite .client {} c sampleSending hfresh hok⟩

end DartUdp.Core
