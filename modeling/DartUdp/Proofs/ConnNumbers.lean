import DartUdp.Lib.MapSum
import DartUdp.Proofs.ConnEdits

/-!
# Packet numbers, and the end of a flush

Every packet that goes out takes the next number. A flush takes the number
before it asks the connection's flow control and gives it back when the frame
has to wait, so no number is skipped; and the frame that waits goes back to the
stream it was taken from, which is there. So the packets of a run are numbered
from zero on in the order they go out, and no nonce comes twice.

A round of a flush that goes on has taken a frame off a queue, or sent the one
ACK that was due. The number of frames queued bounds the number of rounds.

`flush_ends` and `flush_rounds_wellFounded` say that the flush ends, by the measure
`Connection.load`. `Edit.apart` keeps stream data out of the queues of frames and
`Edit.numbered` counts the packets; over a run they give
`packets_numbered_in_order`.
-/

namespace DartUdp.Core

open DartUdp.Lib DartUdp.Udp

variable {suite : Suite} {L : Prop} {k : Cause} {v v' : View} {c : Connection}

/-! ## The end of a flush -/

/-- What a flush still has to do. -/
def Connection.load (c : Connection) : Nat :=
  c.transport.pendingFrames.length + mapSum c.streams.streams (·.send.queue.length) +
    if c.transport.ackPending && c.transport.ackReady then 1 else 0

theorem load_lt_flushFuel (c : Connection) : c.load < c.flushFuel := by
  unfold Connection.load Connection.flushFuel mapSum
  dsimp only
  split <;> omega

/-- Taking a frame off a stream makes its queue one shorter. -/
theorem takeSendable_load {m m' : StreamManager} {q : QueuedFrame}
    (h : m.takeSendable = some (q, m')) :
    mapSum m'.streams (·.send.queue.length) + 1 = mapSum m.streams (·.send.queue.length) := by
  unfold StreamManager.takeSendable at h
  simp only [Option.bind_eq_bind, Option.bind_eq_some_iff, Prod.exists] at h
  obtain ⟨id, s, hfind, item, send, hpop, heq⟩ := h
  cases heq
  have hs : m.streams[id]? = some s :=
    Std.TreeMap.mem_toList_iff_getElem?_eq_some.1 (List.mem_of_find?_eq_some hfind)
  have hsum := mapSum_insert_of_get { s with send := send } (·.send.queue.length) hs
  have hlen : send.queue.length + 1 = s.send.queue.length := by
    unfold SendStream.popSendable at hpop
    split at hpop
    · cases hpop
    · next rest hq =>
        cases hpop
        rw [hq]
        rfl
  show mapSum (m.streams.insert id { s with send := send }) _ + 1 = _
  dsimp only at hsum
  omega

theorem takeCandidate_load :
    Ends takeCandidate c
      (fun r c' => match r with
        | none => True
        | some (.ack _) => c' = c ∧ (c.transport.ackPending && c.transport.ackReady) = true
        | some (.frame _) => c'.load + 1 = c.load)
      fun _ _ => True := by
  simp only [takeCandidate, ends_steps, ends_ofExcept]
  refine ⟨fun hdue => ⟨fun r _ => ?_, fun _ _ => trivial⟩, fun hnot => ?_⟩
  · cases r with
    | none => trivial
    | some a => exact ⟨trivial, hdue⟩
  · simp only [takeDataCandidate, ends_bind, ends_get]
    split
    · next q rest hp =>
        simp only [ends_bind, ends_modifyTransport, ends_pure]
        show Connection.load _ + 1 = c.load
        unfold Connection.load
        rw [hp, List.length_cons]
        dsimp only
        omega
    · split
      · next q streams htake =>
          simp only [ends_steps]
          have := takeSendable_load htake
          show Connection.load _ + 1 = c.load
          unfold Connection.load
          dsimp only
          omega
      · trivial

/-- Flow control only counts. -/
theorem flowBlocks_same (candidate : Candidate) :
    Ends (flowBlocks candidate) c
      (fun _ c' => c'.transport = c.transport ∧ c'.streams = c.streams) fun _ _ => True := by
  unfold flowBlocks
  split
  · simp only [ends_steps]
    exact ⟨fun _ => ⟨trivial, trivial⟩, fun _ => ⟨fun _ => ⟨trivial, trivial⟩,
      fun _ => ⟨trivial, trivial⟩⟩⟩
  · exact ⟨rfl, rfl⟩

theorem settle_load (n len : Nat) (q : QueuedFrame) :
    Ends (settle n len (.frame q)) c (fun _ c' => c'.load = c.load) fun _ _ => True := by
  simp only [settle, ends_steps, ends_modifyTransport]
  refine ⟨fun _ => ?_, fun _ => trivial⟩
  unfold recordSent
  split
  · rfl
  · rfl
  · rfl
  · simp only [ends_bind, ends_get, ends_modifyTransport]
    exact ends_onTimers (fun _ _ => rfl) fun _ _ => trivial

/-- A round that goes on makes the load smaller. -/
theorem flushOnce_load :
    Ends flushOnce c (fun goesOn c' => goesOn = true → c'.load < c.load) fun _ _ => True := by
  simp only [flushOnce, ends_bind]
  refine takeCandidate_load.mono (fun r c₁ h => ?_) fun _ _ _ => trivial
  cases r with
  | none => exact fun h => absurd h Bool.false_ne_true
  | some candidate =>
      simp only [ends_steps, ends_ofExcept]
      refine ⟨fun len _ => ⟨fun _ => ?_, fun _ => ?_⟩, fun _ _ => trivial⟩
      · unfold Ends
        split
        · exact fun h => absurd h Bool.false_ne_true
        · trivial
      · split
        · trivial
        · next next _ =>
            simp only [ends_bind, ends_modifyTransport]
            refine (flowBlocks_same candidate).mono (fun b c₂ hb => ?_) fun _ _ _ => trivial
            have h₂ : c₂.load = c₁.load := by
              unfold Connection.load
              rw [hb.1, hb.2]
            simp only [ends_steps]
            refine ⟨fun _ => ?_, fun _ => ?_⟩
            · unfold Ends
              split
              · exact fun h => absurd h Bool.false_ne_true
              · trivial
            · cases candidate with
              | ack a =>
                  obtain ⟨rfl, hdue⟩ := h
                  simp only [settle, ends_modify, forall_const]
                  have hflags : (c₂.transport.ackPending && c₂.transport.ackReady) = true := by
                    rw [hb.1]
                    exact hdue
                  rw [← h₂]
                  unfold Connection.load
                  rw [if_pos hflags]
                  exact Nat.lt_succ_self _
              | frame q =>
                  refine (settle_load _ _ q).mono (fun _ c₃ h₃ _ => ?_) fun _ _ _ => trivial
                  have h₁ : c₁.load + 1 = c.load := h
                  have h₃' : c₃.load = c₂.load := h₃
                  omega

/-- Rounds to spare change nothing. -/
theorem flushLoop_enough (n m : Nat) (hn : c.load < n) (hm : c.load < m) :
    flushLoop n c = flushLoop m c := by
  induction n generalizing c m with
  | zero => omega
  | succ n ih =>
      cases m with
      | zero => omega
      | succ m =>
          simp only [flushLoop]
          have hload := flushOnce_load (c := c)
          cases hrun : flushOnce c with
          | error e c' => rw [bind_error hrun, bind_error hrun]
          | ok goesOn c' =>
              rw [bind_ok hrun, bind_ok hrun]
              cases goesOn with
              | false => rfl
              | true =>
                  have hlt : c'.load < c.load := hload.ok hrun rfl
                  exact ih m (by omega) (by omega)

/-- The rounds a flush is given are enough for it to end by itself. -/
theorem flush_ends (c : Connection) (extra : Nat) :
    flushLoop (c.flushFuel + extra) c = flush c := by
  have h := load_lt_flushFuel c
  exact flushLoop_enough _ _ (by omega) h

/-- There is no endless sequence of rounds that go on. -/
theorem flush_rounds_wellFounded :
    WellFounded fun c' c : Connection => flushOnce c = .ok true c' :=
  Subrelation.wf (fun h => flushOnce_load.ok h rfl) (measure Connection.load).wf

/-! ## Where stream data waits -/

/-- Stream data waits in its stream only, and the frame that is repeated belongs
to the handshake. -/
structure View.Apart (v : View) : Prop where
  pending : ∀ q ∈ v.pending, ∀ d, q.frame ≠ .streamData d
  stored : ∀ f, v.stored = some f → Hello f

theorem Hello.ne_streamData {f : Frame} (h : Hello f) (d : StreamData) : f ≠ .streamData d := by
  rintro rfl
  exact h

theorem Own.ne_streamData {f : Frame} (h : Own f) (d : StreamData) : f ≠ .streamData d := by
  rintro rfl
  exact h

namespace View.Apart

variable {f : Frame}

theorem keep (h : v.Apart) (hp : v'.pending = v.pending) (hs : v'.stored = v.stored) :
    v'.Apart := by
  constructor
  · rw [hp]
    exact h.pending
  · rw [hs]
    exact h.stored

theorem subset (h : v.Apart) (hp : ∀ q ∈ v'.pending, q ∈ v.pending)
    (hs : v'.stored = v.stored) : v'.Apart := by
  constructor
  · exact fun q hq => h.pending q (hp q hq)
  · rw [hs]
    exact h.stored

theorem add (h : v.Apart) {n : Nat} (hf : ∀ d, f ≠ .streamData d)
    (hp : ∀ q ∈ v'.pending, q ∈ v.pending ∨ q = ⟨f, n⟩) (hs : v'.stored = v.stored) :
    v'.Apart := by
  constructor
  · intro q hq d
    rcases hp q hq with hq | rfl
    · exact h.pending q hq d
    · exact hf d
  · rw [hs]
    exact h.stored

theorem enqueue (h : v.Apart) (hf : ∀ d, f ≠ .streamData d) : (v.enqueue f).Apart :=
  h.add hf (fun q hq => by simpa [View.enqueue] using hq) rfl

theorem enqueueFront (h : v.Apart) (hf : ∀ d, f ≠ .streamData d) : (v.enqueueFront f).Apart :=
  h.add hf (fun q hq => by simpa [View.enqueueFront, or_comm] using hq) rfl

theorem ne_streamData (h : v.Apart) (hf : Own f ∨ v.stored = some f) (d : StreamData) :
    f ≠ .streamData d :=
  hf.elim (fun ho => ho.ne_streamData d) fun hs => (h.stored f hs).ne_streamData d

theorem putBack (h : v.Apart) (f : Frame) (n : Nat) : (v.putBack f n).Apart := by
  unfold View.putBack
  split
  · split
    · exact h.keep rfl rfl
    · exact h
  · next hf => exact h.add hf (fun q hq => by simpa [or_comm] using hq) rfl

theorem putBackAll (h : v.Apart) (n : Nat) (frames : List QueuedFrame) :
    (v.putBackAll n frames).Apart := by
  induction frames generalizing v with
  | nil => exact h
  | cons q rest ih => exact ih (h.putBack q.frame n)

theorem takes {q : QueuedFrame} (h : v.Apart) (ht : Takes v q v') : v'.Apart := by
  cases ht with
  | pending _ rest hp =>
      refine h.subset (fun q' hq' => ?_) rfl
      rw [hp]
      exact List.mem_cons_of_mem q hq'
  | stream id s item send hs hpop => exact h.keep rfl rfl

theorem account (h : v.Apart) (q : QueuedFrame) : (v.account q).Apart := by
  obtain ⟨sent, heq⟩ := v.account_eq q
  rw [heq]
  exact h.keep rfl rfl

theorem read (h : v.Apart) (id maxLen : Nat) (s : StreamRecord) : (v.read id maxLen s).Apart := by
  have hput : (v.put id (s.read maxLen).2).Apart := h.keep rfl rfl
  exact View.read_rule (fun _ _ => hput.enqueue fun d => Frame.noConfusion) (fun _ => hput)
    fun _ _ h' => h'.keep rfl rfl

end View.Apart

theorem Edit.apart (e : Edit suite L k v v') (h : v.Apart) : v'.Apart := by
  cases e with
  | answerClient p hello keys =>
      refine ⟨h.pending, fun f hf => ?_⟩
      cases hf
      trivial
  | answerServer p hello nonce keys =>
      refine ⟨h.pending, fun f hf => ?_⟩
      cases hf
      trivial
  | retry p cookie =>
      refine ⟨h.pending, fun f hf => ?_⟩
      cases hf
      trivial
  | enqueue f hf => exact h.enqueue (h.ne_streamData hf)
  | enqueueFront f hf => exact h.enqueueFront (h.ne_streamData hf)
  | announce id => exact h.enqueue fun d => Frame.noConfusion
  | read id maxLen s => exact h.read id maxLen s
  | lose n count sp =>
      exact View.Apart.putBackAll (show (v.forget n).Apart from h.keep rfl rfl) count _
  | drop n count m sp =>
      exact View.Apart.putBackAll (show (v.forget n).Apart from h.keep rfl rfl) count _
  | emit q v₁ sp ht => exact ((h.takes ht).account q).keep rfl rfl
  | pass q v₁ ht => exact ((h.takes ht).account q).keep rfl rfl
  | lost q v₁ next hl ht => exact (h.takes ht).keep rfl rfl
  | back q v₁ ht => exact (h.takes ht).putBack _ _
  | _ => exact h.keep rfl rfl

theorem Edits.apart (h : Edits suite L k v v') (hv : v.Apart) : v'.Apart := by
  induction h with
  | refl => exact hv
  | tail _ e ih => exact e.apart ih

theorem initial_apart (suite : Suite) (role : ConnectionRole) {id : Nat} {config : ConnectionConfig}
    {handshake : HandshakeState} (hunused : handshake.Unused id config) :
    (View.initial suite role id config handshake).Apart := by
  obtain ⟨keyPair, nonce, rfl⟩ := hunused
  cases role with
  | client =>
      constructor
      · intro q hq d
        rw [List.mem_singleton.1 hq]
        exact Frame.noConfusion
      · intro f hf
        cases hf
        trivial
  | server => exact ⟨fun q hq => absurd hq List.not_mem_nil, fun f hf => nomatch hf⟩

/-! ## The numbers of the packets sent -/

/-- With the packets drained before, those in the output queue are numbered from zero on. -/
structure View.Numbered (v : View) (earlier : List Packet) : Prop where
  apart : v.Apart
  numbers : (earlier ++ v.sends).map (·.packetNumber) = List.range v.next
  bound : v.next ≤ u64Max

namespace View.Numbered

variable {earlier : List Packet}

theorem keep (h : v.Numbered earlier) (ha : v'.Apart) (hs : v'.sends = v.sends)
    (hn : v'.next = v.next) : v'.Numbered earlier := by
  refine ⟨ha, ?_, ?_⟩
  · rw [hs, hn]
    exact h.numbers
  · rw [hn]
    exact h.bound

/-- A packet under the next number. -/
theorem ship (h : v.Numbered earlier) {p : Packet} (ha : v'.Apart) (hp : p.packetNumber = v.next)
    (hs : v'.sends = v.sends ++ [p]) (hn : v'.next = v.next + 1) (hmax : v.next < u64Max) :
    v'.Numbered earlier := by
  refine ⟨ha, ?_, ?_⟩
  · rw [hs, hn, ← List.append_assoc, List.map_append, h.numbers, List.range_succ]
    simp [hp]
  · rw [hn]
    exact hmax

end View.Numbered

theorem View.Outward.counts (h : v.Outward v') : v'.sends = v.sends ∧ v'.next = v.next := by
  obtain ⟨streams, pending, rfl, _⟩ := h
  exact ⟨rfl, rfl⟩

theorem Edit.numbered {earlier : List Packet} (e : Edit suite L k v v') (hk : k ≠ .draining)
    (h : v.Numbered earlier) : v'.Numbered earlier := by
  have ha := e.apart h.apart
  cases e with
  | read id maxLen s =>
      obtain ⟨_, _, _, heq⟩ := v.read_eq id maxLen s
      rw [heq] at ha ⊢
      exact h.keep ha rfl rfl
  | lose n count sp =>
      obtain ⟨hs, hn⟩ := (View.outward_putBackAll (v.forget n) count sp.frames.reverse).counts
      exact h.keep ha hs hn
  | drop n count m sp =>
      obtain ⟨hs, hn⟩ := (View.outward_putBackAll (v.forget n) count
        (sp.frames.reverse.take m)).counts
      exact h.keep ha hs hn
  | sendAck a hc hnext => exact h.ship ha rfl rfl rfl hnext
  | emit q v₁ sp ht henc hflow hframes hcount htracked hnext =>
      obtain ⟨hs, hn⟩ := ht.outward.counts
      obtain ⟨sent, heq⟩ := v₁.account_eq q
      rw [heq] at ha ⊢
      exact h.ship ha (p := v.packetFor q.frame) rfl (by rw [← hs]; rfl) (by rw [← hn]; rfl) hnext
  | pass q v₁ ht henc hflow htracked hnext =>
      obtain ⟨hs, hn⟩ := ht.outward.counts
      obtain ⟨sent, heq⟩ := v₁.account_eq q
      rw [heq] at ha ⊢
      exact h.ship ha (p := v.packetFor q.frame) rfl (by rw [← hs]; rfl) (by rw [← hn]; rfl) hnext
  | lost q v₁ next hl ht hn =>
      have hnext : next = v.next := by
        rcases hn with hn | ⟨_, hq, d, hd⟩
        · exact hn
        · exact absurd hd (h.apart.pending q hq d)
      exact h.keep ha ht.outward.counts.1 hnext
  | back q v₁ ht =>
      obtain ⟨hs, hn⟩ := (ht.outward.trans (v₁.outward_putBack _ _)).counts
      exact h.keep ha hs hn
  | drain hk' => exact absurd hk' hk
  | _ => exact h.keep ha rfl rfl

theorem Edits.numbered {earlier : List Packet} (h : Edits suite L k v v') (hk : k ≠ .draining)
    (hv : v.Numbered earlier) : v'.Numbered earlier := by
  induction h with
  | refl => exact hv
  | tail _ e ih => exact e.numbered hk ih

theorem fresh_numbered {role : ConnectionRole} {config : ConnectionConfig}
    (h : Fresh suite role config c) : c.view.Numbered [] := by
  obtain ⟨_, id, handshake, hunused, hedits⟩ := fresh_edits h
  exact hedits.numbered (by simp) ⟨initial_apart suite role hunused, rfl, Nat.zero_le _⟩

/-- The packets an operation hands out of the output queue. -/
def drainedPackets (suite : Suite) (op : Op) (c : Connection) : List Packet :=
  match answer (perform suite op) c with
  | some (.drained outputs) => packetsOf outputs
  | _ => []

/-- The packets a run puts in the output queue, in order: those drained on the
way and those left at the end. -/
def emitted (suite : Suite) (c : Connection) : List Op → List Packet
  | [] => packetsOf c.output
  | op :: ops => drainedPackets suite op c ++ emitted suite (after (perform suite op) c) ops

theorem drainedPackets_eq_nil {op : Op} (hop : op ≠ .drainOutput) :
    drainedPackets suite op c = [] := by
  have hnone := drained_eq_nil suite hop c
  unfold drained at hnone
  unfold drainedPackets
  split
  · next outputs h =>
      rw [h] at hnone
      rw [show outputs = [] from hnone]
      rfl
  · rfl

theorem perform_numbered (suite : Suite) (op : Op) {earlier : List Packet}
    (h : c.view.Numbered earlier) :
    (after (perform suite op) c).view.Numbered (earlier ++ drainedPackets suite op c) := by
  by_cases hop : op = .drainOutput
  · subst hop
    refine ⟨h.apart.keep rfl rfl, ?_, h.bound⟩
    have hnumbers : ((earlier ++ packetsOf c.output) ++ []).map Packet.packetNumber =
        List.range c.view.next := by
      rw [List.append_nil]
      exact h.numbers
    exact hnumbers
  · have hcause : cause suite c op ≠ .draining := by
      cases op with
      | drainOutput => exact absurd rfl hop
      | onDatagramBytes bytes =>
          show (decoded suite bytes c).elim Cause.other Cause.packet ≠ .draining
          cases decoded suite bytes c <;> exact Cause.noConfusion
      | _ => exact Cause.noConfusion
    have hnone : drainedPackets suite op c = [] := drainedPackets_eq_nil hop
    rw [hnone, List.append_nil]
    exact (perform_edits suite op c).numbered hcause h

theorem emitted_numbered (suite : Suite) (ops : List Op) {earlier : List Packet}
    (h : c.view.Numbered earlier) :
    (earlier ++ emitted suite c ops).map (·.packetNumber) =
        List.range (final suite c ops).transport.nextPacketNumber ∧
      (final suite c ops).transport.nextPacketNumber ≤ u64Max := by
  induction ops generalizing c earlier with
  | nil => exact ⟨h.numbers, h.bound⟩
  | cons op ops ih =>
      have hrest := ih (perform_numbered suite op h)
      rw [List.append_assoc] at hrest
      exact hrest

/-- Nonces of one key are told apart by the packet number. -/
theorem packetNonce_injective (keys : SessionKeys) {n m : Nat} (hn : n ≤ u64Max) (hm : m ≤ u64Max)
    (h : keys.packetNonce n = keys.packetNonce m) : n = m := by
  have hbytes := List.append_cancel_left h
  have hmod := congrArg ofBe hbytes
  rw [ofBe_beBytes, ofBe_beBytes] at hmod
  unfold u64Max at hn hm
  rw [Nat.mod_eq_of_lt (by omega), Nat.mod_eq_of_lt (by omega)] at hmod
  exact hmod

/-- **Packet numbers.** The packets a run puts in the output queue are numbered
from zero on without a gap, and no nonce comes twice under any key. There is no
endless sequence of rounds of a flush, and the rounds `flush` is given are as
many as it makes. -/
theorem packets_numbered_in_order (suite : Suite) (role : ConnectionRole)
    (config : ConnectionConfig) (c : Connection) (ops : List Op)
    (hfresh : Fresh suite role config c) :
    (emitted suite c ops).map (·.packetNumber) = List.range (emitted suite c ops).length ∧
      (∀ keys : SessionKeys,
        ((emitted suite c ops).map fun p => keys.packetNonce p.packetNumber).Nodup) ∧
      (WellFounded fun c₂ c₁ : Connection => flushOnce c₁ = .ok true c₂) ∧
      ∀ (c' : Connection) (extra : Nat), flushLoop (c'.flushFuel + extra) c' = flush c' := by
  obtain ⟨hnumbers, hbound⟩ := emitted_numbered suite ops (fresh_numbered hfresh)
  rw [List.nil_append] at hnumbers
  have hlen := congrArg List.length hnumbers
  rw [List.length_map, List.length_range] at hlen
  refine ⟨by rw [hnumbers, hlen], fun keys => ?_, flush_rounds_wellFounded, flush_ends⟩
  have hmap : ((emitted suite c ops).map fun p => keys.packetNonce p.packetNumber) =
      (List.range (final suite c ops).transport.nextPacketNumber).map keys.packetNonce := by
    rw [← hnumbers, List.map_map]
    rfl
  rw [hmap]
  refine List.Nodup.map_on (fun n hn m hm heq => ?_) List.nodup_range
  rw [List.mem_range] at hn hm
  exact packetNonce_injective keys (by omega) (by omega) heq

/-- A client that is drained, and asked to close, numbers its two packets 0 and
1. -/
theorem packets_numbered_in_order_client :
    ∃ c, Fresh sampleSuite .client {} c ∧
      (emitted sampleSuite c [.drainOutput, .close 0 []]).map (·.packetNumber) = [0, 1] := by
  obtain ⟨c, hc, hlen⟩ := of_checks (r := sampleConnection .client {})
    (p := fun c => (emitted sampleSuite c [.drainOutput, .close 0 []]).length == 2)
    (by decide +kernel)
  have hfresh := sampleConnection_fresh hc
  have h := (packets_numbered_in_order sampleSuite .client {} c
    [.drainOutput, .close 0 []] hfresh).1
  rw [beq_iff_eq] at hlen
  rw [hlen] at h
  exact ⟨c, hfresh, h⟩

end DartUdp.Core
