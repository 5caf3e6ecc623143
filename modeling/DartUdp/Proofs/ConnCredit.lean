import DartUdp.Proofs.ConnFrames
import DartUdp.Proofs.ConnOffsets
import DartUdp.Proofs.ConnReceipts
import DartUdp.Proofs.ConnReopen
import DartUdp.Proofs.ConnSealed

/-!
# What goes out and what comes in

The limits of flow control are on offsets, and what they are about is bytes. On
the way out, the bytes that have gone out are no more than the offset counts. On
the way in, what is counted is the bytes that have come in, each once. And the
room a connection has on a stream only grows.

`Edit.emits`, `Edit.collects` and `Edit.roomOn_le` are the three statements, edit by
edit. They are the part of `data_within_limits` that is about one end.
-/

namespace DartUdp.Core

open DartUdp.Lib DartUdp.Udp

variable {suite : Suite} {L : Prop} {k : Cause} {v v' : View} {c : Connection} {id : Nat}
  {s s' : StreamRecord} {sent : Finset (Nat × Nat)} {q : QueuedFrame} {window buffer : Nat}

theorem View.Carries.mono {P Q : Frame → Prop} (h : v.Carries P) (hPQ : ∀ f, P f → Q f) :
    v.Carries Q := by
  refine ⟨fun q hq => hPQ _ (h.pending q hq), fun id s hs item hitem =>
    hPQ _ (h.queues id s hs item hitem), fun n sp hsp q hq => hPQ _ (h.unacked n sp hsp q hq),
    fun p hp => ?_⟩
  obtain ⟨hid, hframes⟩ := h.sends p hp
  exact ⟨hid, fun f hf => ⟨hPQ f (hframes f hf).1, (hframes f hf).2⟩⟩

/-! ## Room on a stream -/

/-- The offset up to which the connection takes data on a stream. -/
def View.roomOn (v : View) (id : Nat) : Nat :=
  (v.streams id).elim v.streamWindow fun s => s.recv.maxOffset

theorem View.roomOn_of_some (hs : v.streams id = some s) : v.roomOn id = s.recv.maxOffset := by
  unfold View.roomOn
  rw [hs]
  rfl

theorem View.roomOn_of_none (hs : v.streams id = none) : v.roomOn id = v.streamWindow := by
  unfold View.roomOn
  rw [hs]
  rfl

theorem View.roomOn_put {i : Nat} (h : v.roomOn i ≤ s.recv.maxOffset) :
    v.roomOn id ≤ (v.put i s).roomOn id := by
  by_cases hi : id = i
  · rw [hi, View.roomOn_of_some (v.put_self i s)]
    exact h
  · have hsame : (v.put i s).streams id = v.streams id := View.put_of_ne hi
    unfold View.roomOn
    rw [hsame]
    exact le_rfl

theorem View.Outward.roomOn (h : v.Outward v') : v'.roomOn id = v.roomOn id := by
  cases hs : v'.streams id with
  | none => rw [View.roomOn_of_none hs, View.roomOn_of_none (h.unknown.1 hs), h.fields.2.2.1]
  | some s =>
      obtain ⟨s₀, hs₀, _, hrecv, _⟩ := h.known hs
      rw [View.roomOn_of_some hs, View.roomOn_of_some hs₀, hrecv]

theorem StreamRecord.Metered.read_maxOffset (h : s.Metered window buffer) (maxLen : Nat) :
    s.recv.maxOffset ≤ (s.read maxLen).2.recv.maxOffset := by
  have hadvertised := h.advertised
  have hmax : (s.read maxLen).2.recv.maxOffset =
      (s.recvFlow.consume (s.recv.ready.take maxLen).length).1.getD s.recv.maxOffset := rfl
  obtain ⟨_, _, hcases⟩ := s.recvFlow.consume_limits (s.recv.ready.take maxLen).length
  rw [hmax]
  rcases hcases with ⟨hnone, _, _⟩ | ⟨limit, hsome, hlt, _⟩
  · rw [hnone]
    exact le_rfl
  · rw [hsome, Option.getD_some]
    omega

/-- The room on a stream only grows. -/
theorem Edit.roomOn_le (e : Edit suite L k v v') (hm : v.Metered) : v.roomOn id ≤ v'.roomOn id := by
  have hwindow := e.constant.2.2.1
  have hsame : v'.streams = v.streams → v.roomOn id ≤ v'.roomOn id := fun hs => by
    unfold View.roomOn
    rw [hs, hwindow]
  have hkeep : ∀ {i : Nat} {s₀ s₁ : StreamRecord}, v.streams i = some s₀ →
      s₀.recv.maxOffset ≤ s₁.recv.maxOffset → v.roomOn id ≤ (v.put i s₁).roomOn id := by
    intro i s₀ s₁ hs hle
    refine View.roomOn_put ?_
    rw [View.roomOn_of_some hs]
    exact hle
  have hnew : ∀ {i : Nat} {b : Bool} {w : Nat}, v.streams i = none →
      v.roomOn id ≤ (v.put i (.new i b w v.streamWindow)).roomOn id := by
    intro i b w hs
    refine View.roomOn_put ?_
    rw [View.roomOn_of_none hs]
    exact le_rfl
  cases e with
  | opened i hk hst hs => exact hnew hs
  | accept p o hk hf hst hs => exact hnew hs
  | write i data fin s mb mc n send hk hst hs => exact hkeep hs le_rfl
  | read i maxLen s hk hs =>
      obtain ⟨_, _, _, heq⟩ := v.read_eq i maxLen s
      rw [heq]
      show v.roomOn id ≤ (v.put i (s.read maxLen).2).roomOn id
      exact hkeep hs ((hm.streams i s hs).read_maxOffset maxLen)
  | insert p d s newBytes n recv hk hf hst hs hopen hnew hroom hrun =>
      show v.roomOn id ≤ (v.put d.streamId { s with recv := recv }).roomOn id
      exact hkeep hs ((insertSegment_maxOffset _ _ _ _).ok hrun).ge
  | reject p d s e recv hl hk hf hs hopen hrun =>
      exact hkeep hs ((insertSegment_maxOffset _ _ _ _).error hrun).ge
  | finish i s hs => exact hkeep hs le_rfl
  | limit p u s hk hf hs => exact hkeep hs le_rfl
  | reset p r s hk hf hs => exact hkeep hs le_rfl
  | lose n count sp => exact (View.outward_putBackAll (v.forget n) count _).roomOn.ge
  | drop n count m sp => exact (View.outward_putBackAll (v.forget n) count _).roomOn.ge
  | emit q v₁ sp ht =>
      obtain ⟨_, heq⟩ := v₁.account_eq q
      rw [heq]
      exact ht.outward.roomOn.ge
  | pass q v₁ ht =>
      obtain ⟨_, heq⟩ := v₁.account_eq q
      rw [heq]
      exact ht.outward.roomOn.ge
  | lost q v₁ next hl ht => exact ht.outward.roomOn.ge
  | back q v₁ ht => exact (ht.outward.trans (v₁.outward_putBack _ _)).roomOn.ge
  | _ => exact hsame rfl

/-! ## What a write queues -/

theorem pendingChunks_mem {offset : Nat} {parts : List Bytes} {item : PendingData}
    (h : item ∈ pendingChunks offset parts) :
    item.fin = false ∧ item.offset + item.data.length ≤ offset + parts.flatten.length := by
  induction parts generalizing offset with
  | nil => cases h
  | cons part rest ih =>
      rw [List.flatten_cons, List.length_append]
      rcases List.mem_cons.1 h with rfl | h
      · refine ⟨rfl, ?_⟩
        dsimp only
        omega
      · obtain ⟨hfin, hend⟩ := ih h
        exact ⟨hfin, by omega⟩

theorem pendingChunks_last {offset : Nat} {parts : List Bytes} {front : List PendingData}
    {last : PendingData} (h : pendingChunks offset parts = front ++ [last]) :
    last.offset + last.data.length = offset + parts.flatten.length := by
  induction parts generalizing offset front with
  | nil => exact absurd (congrArg List.length h) (by simp [pendingChunks])
  | cons part rest ih =>
      rw [List.flatten_cons, List.length_append]
      cases front with
      | nil =>
          obtain ⟨hfirst, hrest⟩ := List.cons.inj h
          cases rest with
          | nil =>
              rw [← hfirst]
              rfl
          | cons next rest => cases hrest
      | cons item front =>
          have hlast := ih (List.cons.inj h).2
          omega

/-- An accepted write is within the limit. What it queues ends where it ends at the
latest, and a FIN right there. -/
theorem SendStream.write_within {send send' : SendStream} {data : Bytes} {fin : Bool}
    {maxBuffer maxChunk n : Nat} (h : send.write data fin maxBuffer maxChunk = .ok (n, send')) :
    send.nextOffset + data.length ≤ send.maxOffset ∧
      ∀ item ∈ send'.queue, item ∈ send.queue ∨
        item.offset + item.data.length ≤ send.nextOffset + data.length ∧
          (item.fin = true → fin = true ∧
            item.offset + item.data.length = send.nextOffset + data.length) := by
  unfold SendStream.write at h
  split at h
  · cases h
  · split at h
    · cases h
    · split at h
      · cases h
      · next stop hstop =>
          obtain ⟨_, rfl⟩ := checkedAdd_eq_some.1 hstop
          split at h
          · cases h
          · next hle =>
              have hsize : 0 < max maxChunk 1 := by omega
              have hflat := flatten_chunks hsize data
              have hnew : ∀ item ∈ pendingChunks send.nextOffset (chunks (max maxChunk 1) data),
                  item.fin = false ∧
                    item.offset + item.data.length ≤ send.nextOffset + data.length := by
                intro item hitem
                have hmem := pendingChunks_mem hitem
                rwa [hflat] at hmem
              cases h
              refine ⟨Nat.le_of_not_lt hle, fun item hitem => ?_⟩
              dsimp only at hitem
              cases fin with
              | false =>
                  refine (List.mem_append.1 hitem).imp_right fun hitem => ?_
                  obtain ⟨hfin, hend⟩ := hnew item hitem
                  exact ⟨hend, fun h => absurd (hfin.symm.trans h) Bool.false_ne_true⟩
              | true =>
                  rw [if_neg (by decide)] at hitem
                  split at hitem
                  · rcases List.mem_append.1 hitem with hitem | hitem
                    · refine (List.mem_append.1 hitem).imp_right fun hitem => ?_
                      obtain ⟨hfin, hend⟩ := hnew item hitem
                      exact ⟨hend, fun h => absurd (hfin.symm.trans h) Bool.false_ne_true⟩
                    · rw [List.mem_singleton.1 hitem]
                      exact .inr ⟨Nat.le_refl _, fun _ => ⟨rfl, rfl⟩⟩
                  · next hnil =>
                      -- The last item gets the FIN, and it is one of the new ones.
                      have hne :
                          pendingChunks send.nextOffset (chunks (max maxChunk 1) data) ≠ [] := by
                        intro hno
                        cases hparts : chunks (max maxChunk 1) data with
                        | nil =>
                            rw [hparts, List.flatten_nil] at hflat
                            rw [← hflat] at hnil
                            exact hnil rfl
                        | cons part rest =>
                            rw [hparts] at hno
                            cases hno
                      obtain ⟨front, last, hlast⟩ := (List.eq_nil_or_concat' _).resolve_left hne
                      rw [hlast, ← List.append_assoc, finLast_concat, List.append_assoc] at hitem
                      refine (List.mem_append.1 hitem).imp_right fun hitem => ?_
                      rcases List.mem_append.1 hitem with hitem | hitem
                      · obtain ⟨hfin, hend⟩ := hnew item
                          (by rw [hlast]; exact List.mem_append_left _ hitem)
                        exact ⟨hend, fun h => absurd (hfin.symm.trans h) Bool.false_ne_true⟩
                      · have hend := pendingChunks_last hlast
                        rw [hflat] at hend
                        rw [List.mem_singleton.1 hitem]
                        exact ⟨hend.le, fun _ => ⟨rfl, hend⟩⟩

/-! ## Bytes that have gone out -/

/-- A chunk that was lost before has gone out. -/
def Sent (sent : Finset (Nat × Nat)) (d : StreamData) (count : Nat) : Prop :=
  count ≠ 0 → ∀ x ∈ positionsOf d, x ∈ sent

/-- No more bytes have gone out than the offset counts, and it counts no more than
the limit allows. -/
structure View.Emits (limit : Nat) (sent : Finset (Nat × Nat)) (v : View) : Prop where
  count : sent.card ≤ v.send.connectionSentOffset
  limit : v.send.connectionSentOffset ≤ min limit u64Max
  queues : ∀ id s, v.streams id = some s → ∀ item ∈ s.send.queue,
    Sent sent (item.chunk id) item.retransmitCount
  flown : ∀ n sp, v.unacked n = some sp → ∀ q ∈ sp.frames, ∀ d, q.frame = .streamData d →
    ∀ x ∈ positionsOf d, x ∈ sent

namespace View.Emits

variable {limit : Nat}

theorem keep (h : v.Emits limit sent) (hs : v'.streams = v.streams) (hu : v'.unacked = v.unacked)
    (ho : v'.send.connectionSentOffset = v.send.connectionSentOffset) : v'.Emits limit sent := by
  refine ⟨?_, ?_, ?_, ?_⟩
  · rw [ho]
    exact h.count
  · rw [ho]
    exact h.limit
  · rw [hs]
    exact h.queues
  · rw [hu]
    exact h.flown

theorem put (h : v.Emits limit sent)
    (hs : ∀ item ∈ s.send.queue, Sent sent (item.chunk id) item.retransmitCount) :
    (v.put id s).Emits limit sent := by
  refine ⟨h.count, h.limit, fun i s' hs' => ?_, h.flown⟩
  rcases put_cases hs' with ⟨rfl, rfl⟩ | ⟨_, hs'⟩
  · exact hs
  · exact h.queues i s' hs'

theorem forget (h : v.Emits limit sent) (n : Nat) : (v.forget n).Emits limit sent := by
  refine ⟨h.count, h.limit, h.queues, fun m sp hm => ?_⟩
  by_cases hmn : m = n
  · rw [hmn, forget_self] at hm
    cases hm
  · rw [forget_of_ne hmn] at hm
    exact h.flown m sp hm

theorem putBack {f : Frame} {n : Nat} (h : v.Emits limit sent)
    (hf : ∀ d, f = .streamData d → Sent sent d n) : (v.putBack f n).Emits limit sent := by
  unfold View.putBack
  split
  · next d =>
      split
      · next s hs =>
          refine h.put fun item hitem => ?_
          rcases List.mem_cons.1 hitem with rfl | hitem
          · exact hf d rfl
          · exact h.queues d.streamId s hs item hitem
      · exact h
  · exact h.keep rfl rfl rfl

theorem putBackAll {n : Nat} {frames : List QueuedFrame} (h : v.Emits limit sent)
    (hf : ∀ q ∈ frames, ∀ d, q.frame = .streamData d → Sent sent d n) :
    (v.putBackAll n frames).Emits limit sent := by
  induction frames generalizing v with
  | nil => exact h
  | cons q rest ih =>
      exact ih (h.putBack (hf q List.mem_cons_self)) fun q' hq' =>
        hf q' (List.mem_cons_of_mem q hq')

/-- What is lost has gone out before. -/
theorem lose {n count m : Nat} {sp : SentPacket} (h : v.Emits limit sent)
    (hs : v.unacked n = some sp) :
    ((v.forget n).putBackAll count (sp.frames.reverse.take m)).Emits limit sent := by
  refine (h.forget n).putBackAll fun q hq d hd _ => h.flown n sp hs q ?_ d hd
  exact List.mem_reverse.1 (List.mem_of_mem_take hq)

theorem takes (h : v.Emits limit sent) (hapart : v.Apart) (ht : Takes v q v') :
    v'.Emits limit sent ∧ ∀ d, q.frame = .streamData d → Sent sent d q.retransmitCount := by
  cases ht with
  | pending _ rest hp =>
      refine ⟨h.keep rfl rfl rfl, fun d hd => absurd hd (hapart.pending q ?_ d)⟩
      rw [hp]
      exact List.mem_cons_self
  | stream id s item send hs hpop =>
      unfold SendStream.popSendable at hpop
      split at hpop
      · cases hpop
      · next rest hqueue =>
          cases hpop
          have hqueues := h.queues id s hs
          rw [hqueue] at hqueues
          refine ⟨h.put fun item' hitem => hqueues item' (List.mem_cons_of_mem item hitem),
            fun d hd => ?_⟩
          cases hd
          exact hqueues item List.mem_cons_self

/-- What is written has not been lost yet. -/
theorem write {n maxBuffer maxChunk : Nat} {data : Bytes} {fin : Bool} {send : SendStream}
    (h : v.Emits limit sent) (hs : v.streams id = some s)
    (hw : s.send.write data fin maxBuffer maxChunk = .ok (n, send)) :
    (v.put id { s with send := send }).Emits limit sent := by
  obtain ⟨_, _, _, _, _, _, items, hqueue, hcuts⟩ := SendStream.write_ok hw
  refine h.put fun item hitem => ?_
  rw [hqueue] at hitem
  rcases List.mem_append.1 hitem with hitem | hitem
  · exact h.queues id s hs item hitem
  · exact fun hne => absurd (hcuts.fresh item hitem).1 hne

/-- A frame goes out: the bytes that do so for the first time are counted. -/
theorem ship {p : Packet} (h : v.Emits limit sent)
    (hq : ∀ d, q.frame = .streamData d → Sent sent d q.retransmitCount)
    (hflow : ∀ d, q.frame = .streamData d →
      v.send.canSend d.data.length (q.retransmitCount != 0) = true ∧
        v.send.connectionMaxOffset ≤ limit) :
    ((v.account q).ship p).Emits limit (sent ∪ (framePositions q.frame).toFinset) := by
  have hsub : sent ⊆ sent ∪ (framePositions q.frame).toFinset := Finset.subset_union_left
  obtain ⟨offset, heq⟩ := v.account_eq q
  have hrest : ∀ offset, (sent ∪ (framePositions q.frame).toFinset).card ≤ offset →
      offset ≤ min limit u64Max →
      (({ v with send := { v.send with connectionSentOffset := offset } } : View).ship p).Emits
        limit (sent ∪ (framePositions q.frame).toFinset) := by
    intro offset hcount hlimit
    refine ⟨hcount, hlimit, fun id s hs item hitem hne x hx => ?_,
      fun n sp hsp q' hq' d hd x hx => ?_⟩
    · exact hsub (h.queues id s hs item hitem hne x hx)
    · exact hsub (h.flown n sp hsp q' hq' d hd x hx)
  have hcount := h.count
  have hlimit := h.limit
  obtain ⟨f, n⟩ := q
  cases f with
  | streamData d =>
      cases n with
      | zero =>
          obtain ⟨hcan, hmax⟩ := hflow d rfl
          have hoffset := SendFlowControl.sent_of_canSend hcan
          have hcard := Finset.card_union_le sent (positionsOf d).toFinset
          rw [card_positions] at hcard
          have hfits : v.send.connectionSentOffset + d.data.length ≤ min limit u64Max := by
            unfold SendFlowControl.canSend checkedAdd at hcan
            split at hcan
            · next hle =>
                have hstop := of_decide_eq_true (show decide (_ ≤ _) = true from hcan)
                omega
            · cases hcan
          refine hrest (v.send.accountNewData d.data.length).connectionSentOffset ?_ ?_
          · rw [hoffset]
            show (sent ∪ (positionsOf d).toFinset).card ≤ _
            omega
          · rw [hoffset]
            exact hfits
      | succ n =>
          have hknown : (positionsOf d).toFinset ⊆ sent := fun x hx =>
            hq d rfl (Nat.succ_ne_zero n) x (List.mem_toFinset.1 hx)
          refine hrest v.send.connectionSentOffset ?_ hlimit
          show (sent ∪ (positionsOf d).toFinset).card ≤ _
          rw [Finset.union_eq_left.2 hknown]
          exact hcount
  | _ =>
      refine hrest v.send.connectionSentOffset ?_ hlimit
      rw [framePositions_other (fun d => Frame.noConfusion), List.toFinset_nil, Finset.union_empty]
      exact hcount

/-- The packet is kept until it is acknowledged. -/
theorem track {n : Nat} {sp : SentPacket} (h : v.Emits limit sent)
    (hframes : sp.frames = [q]) (hq : ∀ x ∈ framePositions q.frame, x ∈ sent) :
    (v.track n sp).Emits limit sent := by
  refine ⟨h.count, h.limit, h.queues, fun m sp' hm q' hq' d hd x hx => ?_⟩
  by_cases hmn : m = n
  · rw [hmn, track_self] at hm
    cases hm
    rw [hframes] at hq'
    rw [List.mem_singleton.1 hq'] at hd
    refine hq x ?_
    rw [hd]
    exact hx
  · rw [track_of_ne hmn] at hm
    exact h.flown m sp' hm q' hq' d hd x hx

end View.Emits

theorem Edit.emits {limit : Nat} {earlier : List Packet} (e : Edit suite L k v v')
    (hdrain : k ≠ .draining) (hapart : v.Apart)
    (hlimit : ∀ id, (v.streams id).isSome → v.send.connectionMaxOffset ≤ limit)
    (h : v.Emits limit (emittedBytes (earlier ++ v.sends))) :
    v'.Emits limit (emittedBytes (earlier ++ v'.sends)) := by
  have hship : ∀ {q : QueuedFrame} {v₁ : View}, Takes v q v₁ →
      (∀ d, q.frame = .streamData d →
        v.send.canSend d.data.length (q.retransmitCount != 0) = true) →
      ((v₁.account q).ship (v.packetFor q.frame)).Emits limit
        (emittedBytes (earlier ++ (v.sends ++ [v.packetFor q.frame]))) := by
    intro q v₁ ht hflow
    obtain ⟨h₁, hq⟩ := h.takes hapart ht
    obtain ⟨hsend, _, _⟩ := ht.outward.sending
    rw [← List.append_assoc, emittedBytes_concat (p := v.packetFor q.frame) rfl]
    refine h₁.ship hq fun d hd => ?_
    rw [hsend]
    refine ⟨hflow d hd, ?_⟩
    cases ht with
    | pending _ rest hp =>
        refine absurd hd (hapart.pending q ?_ d)
        rw [hp]
        exact List.mem_cons_self
    | stream id s item send hs hpop =>
        refine hlimit id ?_
        rw [hs]
        rfl
  cases e with
  | answerClient p hello keys =>
      refine h.keep rfl rfl ?_
      unfold View.answerClient
      dsimp only
      split <;> rfl
  | opened id hc hst hs => exact h.put nofun
  | accept p o hc hf hst hs => exact h.put nofun
  | write id data fin s maxBuffer maxChunk n send hc hst hs hopen hw => exact h.write hs hw
  | read id maxLen s hc hs =>
      obtain ⟨pending, queued, receive, heq⟩ := v.read_eq id maxLen s
      rw [heq]
      exact (h.put (s := (s.read maxLen).2) (h.queues id s hs)).keep rfl rfl rfl
  | insert p d s newBytes n recv hc hf hst hs =>
      exact (h.put (s := { s with recv := recv }) (h.queues d.streamId s hs)).keep rfl rfl rfl
  | reject p d s e recv hl hc hf hs => exact h.put (h.queues d.streamId s hs)
  | finish id s hs => exact h.put (h.queues id s hs)
  | limit p u s hc hf hs => exact h.put (h.queues u.streamId s hs)
  | reset p r s hc hf hs => exact h.put (h.queues r.streamId s hs)
  | ack p a n sp hc hf hcov hs => exact (h.forget n).keep rfl rfl rfl
  | lose n count sp hs =>
      rw [(View.outward_putBackAll (v.forget n) count sp.frames.reverse).counts.1,
        ← sp.frames.reverse.take_length]
      exact h.lose hs
  | drop n count m sp hl hs =>
      rw [(View.outward_putBackAll (v.forget n) count (sp.frames.reverse.take m)).counts.1]
      exact h.lose hs
  | sendAck a =>
      show View.Emits limit (emittedBytes (earlier ++ (v.sends ++ [_]))) _
      rw [← List.append_assoc, emittedBytes_concat rfl,
        framePositions_other (fun d => Frame.noConfusion), List.toFinset_nil, Finset.union_empty]
      exact h.keep rfl rfl rfl
  | emit q v₁ sp ht henc hflow hframes =>
      have hgone := hship ht hflow
      have hsends : (((v₁.account q).ship (v.packetFor q.frame)).track v.next sp).sends =
          v.sends ++ [v.packetFor q.frame] := by
        show (v₁.account q).sends ++ [_] = _
        rw [(v₁.account_same q).1, ht.outward.sending.2.1]
      rw [hsends]
      refine hgone.track hframes fun x hx => ?_
      rw [← List.append_assoc, emittedBytes_concat (p := v.packetFor q.frame) rfl]
      exact Finset.mem_union_right _ (List.mem_toFinset.2 hx)
  | pass q v₁ ht henc hflow =>
      have hsends : ((v₁.account q).ship (v.packetFor q.frame)).sends =
          v.sends ++ [v.packetFor q.frame] := by
        show (v₁.account q).sends ++ [_] = _
        rw [(v₁.account_same q).1, ht.outward.sending.2.1]
      rw [hsends]
      exact hship ht hflow
  | lost q v₁ next hl ht =>
      show View.Emits limit (emittedBytes (earlier ++ v₁.sends)) _
      rw [ht.outward.sending.2.1]
      exact (h.takes hapart ht).1.keep rfl rfl rfl
  | back q v₁ ht =>
      obtain ⟨h₁, hq⟩ := h.takes hapart ht
      rw [(ht.outward.trans (v₁.outward_putBack _ _)).counts.1]
      exact h₁.putBack hq
  | drain hc => exact absurd hc hdrain
  | _ => exact h.keep rfl rfl rfl

/-! ## Bytes that have come in -/

/-- The bytes that have come in, each by its stream and its offset, are as many as
are counted. -/
structure View.Collects (v : View) (got : Finset (Nat × Nat)) : Prop where
  count : got.card = v.receive.uniqueReceived
  known : ∀ x ∈ got, (v.streams x.1).isSome
  covers : ∀ id s, v.streams id = some s → ∀ i, s.recv.covers i = true ↔ (id, i) ∈ got

/-- What a frame of stream data brings is what was missing of it. -/
theorem View.Collects.card {got : Finset (Nat × Nat)} {d : StreamData} (h : v.Collects got)
    (hs : v.streams d.streamId = some s) :
    (got ∪ (positionsOf d).toFinset).card =
      v.receive.uniqueReceived + s.recv.missing d.offset d.data := by
  have hnew : (positionsOf d).toFinset \ got =
      ((Finset.Ico d.offset (d.offset + d.data.length)).filter fun i => !s.recv.covers i).map
        ⟨Prod.mk d.streamId, Prod.mk_right_injective d.streamId⟩ := by
    ext ⟨i, n⟩
    rw [Finset.mem_sdiff, List.mem_toFinset, mem_positions, Finset.mem_map]
    constructor
    · rintro ⟨⟨hid, hfrom, hto⟩, hnot⟩
      have hid : i = d.streamId := hid
      subst hid
      refine ⟨n, Finset.mem_filter.2 ⟨Finset.mem_Ico.2 ⟨hfrom, hto⟩, ?_⟩, rfl⟩
      rw [Bool.not_eq_true', Bool.eq_false_iff, Ne, h.covers _ s hs]
      exact hnot
    · rintro ⟨m, hm, heq⟩
      cases heq
      obtain ⟨hm, hmissing⟩ := Finset.mem_filter.1 hm
      rw [Bool.not_eq_true', Bool.eq_false_iff, Ne, h.covers _ s hs] at hmissing
      exact ⟨⟨rfl, Finset.mem_Ico.1 hm⟩, hmissing⟩
  rw [← Finset.union_sdiff_self_eq_union, Finset.card_union_of_disjoint Finset.disjoint_sdiff,
    hnew, Finset.card_map, h.count]
  rfl

theorem View.Collects.congr {got : Finset (Nat × Nat)} (h : v.Collects got)
    (hs : v'.streams = v.streams) (hr : v'.receive.uniqueReceived = v.receive.uniqueReceived) :
    v'.Collects got := by
  refine ⟨h.count.trans hr.symm, ?_, ?_⟩
  · rw [hs]
    exact h.known
  · rw [hs]
    exact h.covers

/-- The receiving side of a stream is left as it was, or is new. -/
theorem View.Collects.put {got : Finset (Nat × Nat)} (h : v.Collects got)
    (hs : ∀ i, s.recv.covers i = true ↔ (id, i) ∈ got) : (v.put id s).Collects got := by
  refine ⟨h.count, fun x hx => ?_, fun i s' hs' => ?_⟩
  · by_cases hi : x.1 = id
    · rw [hi, View.put_self]
      rfl
    · rw [View.put_of_ne hi]
      exact h.known x hx
  · rcases View.put_cases hs' with ⟨rfl, rfl⟩ | ⟨_, hs'⟩
    · exact hs
    · exact h.covers i s' hs'

theorem View.Collects.outward {got : Finset (Nat × Nat)} (h : v.Collects got)
    (ho : v.Outward v') : v'.Collects got := by
  refine ⟨?_, fun x hx => ?_, fun id s hs => ?_⟩
  · rw [ho.fields.2.2.2.2]
    exact h.count
  · exact ho.isSome.2 (h.known x hx)
  · obtain ⟨s₀, hs₀, _, hrecv, _⟩ := ho.known hs
    rw [hrecv]
    exact h.covers id s₀ hs₀

/-- What comes in is what the packet has. -/
theorem Edit.collects {got : Finset (Nat × Nat)} (e : Edit suite L k v v') (hm : v.Metered)
    (h : v.Collects got) : ∃ got', v'.Collects got' ∧ ∀ x ∈ got', x ∈ got ∨
      ∃ p d, k = .packet p ∧ .streamData d ∈ p.frames ∧ x ∈ positionsOf d := by
  have hkeep : ∀ {v₁ : View}, v₁.Collects got → ∃ got', v₁.Collects got' ∧ ∀ x ∈ got', x ∈ got ∨
      ∃ p d, k = .packet p ∧ .streamData d ∈ p.frames ∧ x ∈ positionsOf d := fun h₁ =>
    ⟨got, h₁, fun _ hx => .inl hx⟩
  have hnew : ∀ {i : Nat} {b : Bool} {w window : Nat}, v.streams i = none →
      (v.put i (.new i b w window)).Collects got := by
    intro i b w window hs
    refine h.put fun n => ⟨fun hcovers => ?_, fun hgot => ?_⟩
    · rcases covers_iff.1 hcovers with hlt | ⟨_, hholds⟩
      · exact absurd hlt (Nat.not_lt_zero n)
      · exact absurd hholds holds_empty
    · have hknown := h.known _ hgot
      rw [hs] at hknown
      cases hknown
  cases e with
  | opened i hk hst hs => exact hkeep (hnew hs)
  | accept p o hk hf hst hs => exact hkeep (hnew hs)
  | write i data fin s mb mc n send hk hst hs => exact hkeep (h.put (h.covers i s hs))
  | read i maxLen s hk hs =>
      have hput : (v.put i (s.read maxLen).2).Collects got := h.put (h.covers i s hs)
      refine hkeep (View.read_rule (P := fun v => v.Collects got)
        (fun _ _ => hput.congr rfl rfl) (fun _ => hput) fun v₁ amount h₁ => ?_)
      exact h₁.congr rfl (v₁.receive.consume_limits amount).2.1
  | insert p d s newBytes n recv hk hf hst hs hopen hnew hroom hrun =>
      have hmetered := hm.streams _ _ hs
      have hinserts := ((insertSegment_ends hmetered.sound).ok hrun).1
      have hn : n = newBytes := Except.ok.inj (hinserts.newBytes.symm.trans hnew)
      have hlength : (List.replicate s.recvFlow.consumed (0 : UInt8) ++ s.recv.ready).length =
          s.recv.nextOffset := by
        rw [List.length_append, List.length_replicate]
        exact hmetered.consumed
      have hcovers : ∀ i, recv.covers i = true ↔
          (d.streamId, i) ∈ got ∪ (positionsOf d).toFinset := by
        intro i
        rw [hinserts.covers hlength, h.covers _ s hs, Finset.mem_union, List.mem_toFinset,
          mem_positions]
        exact or_congr_right ⟨fun hi => ⟨rfl, hi⟩, fun hi => hi.2⟩
      refine ⟨got ∪ (positionsOf d).toFinset, ⟨?_, fun x hx => ?_, fun i s' hs' => ?_⟩,
        fun x hx => ?_⟩
      · rw [h.card hs, ← hinserts.missing, hn]
      · show ((v.put d.streamId { s with recv := recv }).streams x.1).isSome
        by_cases hi : x.1 = d.streamId
        · rw [hi, View.put_self]
          rfl
        · rw [View.put_of_ne hi]
          rcases Finset.mem_union.1 hx with hx | hx
          · exact h.known x hx
          · exact absurd (mem_positions.1 (List.mem_toFinset.1 hx)).1 hi
      · have hs' : (v.put d.streamId { s with recv := recv }).streams i = some s' := hs'
        rcases View.put_cases hs' with ⟨rfl, rfl⟩ | ⟨hi, hs'⟩
        · exact hcovers
        · intro n
          rw [h.covers i s' hs', Finset.mem_union, List.mem_toFinset, mem_positions]
          exact ⟨.inl, fun hor => hor.resolve_right fun hin => hi hin.1⟩
      · rcases Finset.mem_union.1 hx with hx | hx
        · exact .inl hx
        · exact .inr ⟨p, d, hk, hf, List.mem_toFinset.1 hx⟩
  | reject p d s e recv hl hk hf hs hopen hrun =>
      rw [hm.reject hs hrun]
      exact hkeep h
  | finish i s hs => exact hkeep (h.put (h.covers i s hs))
  | limit p u s hk hf hs => exact hkeep (h.put (h.covers u.streamId s hs))
  | reset p r s hk hf hs => exact hkeep (h.put (h.covers r.streamId s hs))
  | lose n count sp =>
      exact hkeep (View.Collects.outward (v := v.forget n) (h.congr rfl rfl)
        (View.outward_putBackAll _ _ _))
  | drop n count m sp =>
      exact hkeep (View.Collects.outward (v := v.forget n) (h.congr rfl rfl)
        (View.outward_putBackAll _ _ _))
  | emit q v₁ sp ht =>
      obtain ⟨_, heq⟩ := v₁.account_eq q
      rw [heq]
      exact hkeep ((h.outward ht.outward).congr rfl rfl)
  | pass q v₁ ht =>
      obtain ⟨_, heq⟩ := v₁.account_eq q
      rw [heq]
      exact hkeep ((h.outward ht.outward).congr rfl rfl)
  | lost q v₁ next hl ht => exact hkeep ((h.outward ht.outward).congr rfl rfl)
  | back q v₁ ht => exact hkeep (h.outward (ht.outward.trans (v₁.outward_putBack _ _)))
  | _ => exact hkeep (h.congr rfl rfl)

theorem Edits.collects {got : Finset (Nat × Nat)} (e : Edits suite L k v v') (hm : v.Metered)
    (h : v.Collects got) : ∃ got', v'.Collects got' ∧ ∀ x ∈ got', x ∈ got ∨
      ∃ p d, k = .packet p ∧ .streamData d ∈ p.frames ∧ x ∈ positionsOf d := by
  have hall : v'.Metered ∧ ∃ got', v'.Collects got' ∧ ∀ x ∈ got', x ∈ got ∨
      ∃ p d, k = .packet p ∧ .streamData d ∈ p.frames ∧ x ∈ positionsOf d := by
    induction e with
    | refl => exact ⟨hm, got, h, fun _ hx => .inl hx⟩
    | tail _ e ih =>
        obtain ⟨hm', got', h', hfrom⟩ := ih
        obtain ⟨got'', h'', hfrom'⟩ := e.collects hm' h'
        refine ⟨e.metered hm', got'', h'', fun x hx => ?_⟩
        rcases hfrom' x hx with hx | hx
        · exact hfrom x hx
        · exact .inr hx
  exact hall.2

end DartUdp.Core
