import DartUdp.Proofs.ConnEdits

/-!
# Receive windows and what is advertised of them

A read makes room: it raises the limit of the stream and the limit of the
connection. The stream's new limit is queued in a `MaxStreamData` frame. The
connection's is not: `read_stream` drops what `consume` answers, and no other
path queues a `MaxData` frame. So the limit of every stream is what was
announced, over every run, and the limit of the connection is only until the
first read that takes a byte.

The module is for `advertised_iff`. `Edit.limits` keeps that the limit of a stream
is the one announced, and how far the connection's is ahead by what reads have
consumed; `perform_consumed` says that only reads add to that.
-/

namespace DartUdp.Core

open DartUdp.Lib DartUdp.Udp

/-! ## What has been advertised -/

/-- The limits in the `MaxData` frames. -/
def connectionLimits : List Frame → List Nat :=
  List.filterMap fun
    | .maxData maxOffset => some maxOffset
    | _ => none

/-- The limits in the `MaxStreamData` frames for the stream. -/
def streamLimits (streamId : Nat) : List Frame → List Nat :=
  List.filterMap fun
    | .maxStreamData update => if update.streamId = streamId then some update.maxOffset else none
    | _ => none

/-- The highest of a limit and the ones announced after it. -/
def highest (initial : Nat) (limits : List Nat) : Nat := limits.foldl max initial

/-- The limits in force are the highest ones announced. -/
def Advertised (config : ConnectionConfig) (c : Connection) : Prop :=
  c.connectionReceive.maxOffset =
      highest config.initialConnectionWindow (connectionLimits c.transport.queued) ∧
    ∀ streamId s, c.streams.streams[streamId]? = some s →
      s.recv.maxOffset =
        highest config.initialStreamWindow (streamLimits streamId c.transport.queued)

/-- The operation is a read of a stream that has bytes ready, with room for
some. -/
def TakesBytes (c : Connection) : Op → Prop
  | .readStream streamId maxLen =>
      0 < maxLen ∧ ∃ s, c.streams.streams[streamId]? = some s ∧ s.recv.ready ≠ [] ∧
        ∀ errorCode, s.state ≠ .reset errorCode
  | _ => False

/-! ## The invariant -/

/-- The limits of a view: those of the streams are announced, that of the
connection follows what was consumed and is never announced. -/
structure View.Limits (v : View) : Prop where
  stored : ∀ f, v.stored = some f → Hello f
  silent : connectionLimits v.queued = []
  window : v.receive.windowSize = v.connectionWindow
  advertised : v.receive.advertisedOffset = v.receive.maxOffset
  limit : v.receive.maxOffset =
    max v.connectionWindow (min (v.receive.consumed + v.connectionWindow) u64Max)
  unknown : ∀ id, v.streams id = none → streamLimits id v.queued = []
  known : ∀ id s, v.streams id = some s →
    s.recvFlow.advertisedOffset = s.recv.maxOffset ∧
      s.recv.maxOffset = highest v.streamWindow (streamLimits id v.queued)

variable {suite : Suite} {L : Prop} {k : Cause} {v v' : View}

theorem announces_nothing {f : Frame} (h : Own f ∨ Hello f) :
    connectionLimits [f] = [] ∧ ∀ id, streamLimits id [f] = [] := by
  cases f with
  | clientHello => exact ⟨rfl, fun _ => rfl⟩
  | serverHello => exact ⟨rfl, fun _ => rfl⟩
  | handshakeAck => exact ⟨rfl, fun _ => rfl⟩
  | ping => exact ⟨rfl, fun _ => rfl⟩
  | pong => exact ⟨rfl, fun _ => rfl⟩
  | connectionClose => exact ⟨rfl, fun _ => rfl⟩
  | _ => exact (h.elim id id).elim

/-- The invariant is about the streams, the frames queued and the limits. -/
theorem View.Limits.congr (h : v.Limits) (hstreams : v'.streams = v.streams)
    (hqueued : v'.queued = v.queued) (hreceive : v'.receive = v.receive)
    (hstream : v'.streamWindow = v.streamWindow)
    (hconnection : v'.connectionWindow = v.connectionWindow)
    (hstored : ∀ f, v'.stored = some f → Hello f) : v'.Limits := by
  refine ⟨hstored, ?_, ?_, ?_, ?_, ?_, ?_⟩
  · rw [hqueued]
    exact h.silent
  · rw [hreceive, hconnection]
    exact h.window
  · rw [hreceive]
    exact h.advertised
  · rw [hreceive, hconnection]
    exact h.limit
  · rw [hstreams, hqueued]
    exact h.unknown
  · rw [hstreams, hqueued, hstream]
    exact h.known

/-- A frame that carries no limit may be queued. -/
theorem View.Limits.queued (h : v.Limits) {f : Frame} (pending : List QueuedFrame)
    (hc : connectionLimits [f] = []) (hs : ∀ id, streamLimits id [f] = []) :
    ({ v with pending := pending, queued := v.queued ++ [f] } : View).Limits := by
  have hconn : connectionLimits (v.queued ++ [f]) = [] := by
    rw [connectionLimits, List.filterMap_append]
    exact List.append_eq_nil_iff.2 ⟨h.silent, hc⟩
  have hstream : ∀ id, streamLimits id (v.queued ++ [f]) = streamLimits id v.queued := by
    intro id
    rw [streamLimits, List.filterMap_append]
    exact (congrArg _ (hs id)).trans (List.append_nil _)
  refine ⟨h.stored, hconn, h.window, h.advertised, h.limit, fun id hid => ?_, fun id s hid => ?_⟩
  · exact (hstream id).trans (h.unknown id hid)
  · rw [hstream id]
    exact h.known id s hid

/-- A record whose limits are right may be written back. -/
theorem View.Limits.put (h : v.Limits) {id : Nat} {s : StreamRecord}
    (hs : s.recvFlow.advertisedOffset = s.recv.maxOffset)
    (hl : s.recv.maxOffset = highest v.streamWindow (streamLimits id v.queued)) :
    (v.put id s).Limits := by
  refine ⟨h.stored, h.silent, h.window, h.advertised, h.limit, fun i hi => ?_, fun i s' hi => ?_⟩
  · by_cases hid : i = id
    · rw [hid, View.put_self] at hi
      cases hi
    · rw [View.put_of_ne hid] at hi
      exact h.unknown i hi
  · by_cases hid : i = id
    · rw [hid, View.put_self] at hi
      cases hi
      rw [hid]
      exact ⟨hs, hl⟩
    · rw [View.put_of_ne hid] at hi
      exact h.known i s' hi

/-- Writing a record back keeps the limits when it keeps those of the stream. -/
theorem View.Limits.keep (h : v.Limits) {id : Nat} {s s' : StreamRecord}
    (hs : v.streams id = some s) (hflow : s'.recvFlow = s.recvFlow)
    (hrecv : s'.recv.maxOffset = s.recv.maxOffset) : (v.put id s').Limits := by
  obtain ⟨hadv, hmax⟩ := h.known id s hs
  refine h.put ?_ ?_
  · rw [hflow, hrecv]
    exact hadv
  · rw [hrecv]
    exact hmax

theorem View.Limits.outward (h : v.Limits) (ho : v.Outward v') : v'.Limits := by
  have hunknown := fun id => @View.Outward.unknown _ _ ho id
  have hknown := fun id s => @View.Outward.known _ _ ho id s
  obtain ⟨streams, pending, rfl, hin⟩ := ho
  refine ⟨h.stored, h.silent, h.window, h.advertised, h.limit, fun id hid => ?_,
    fun id s hid => ?_⟩
  · exact h.unknown id ((hunknown id).1 hid)
  · obtain ⟨s₀, hs₀, _, hrecv, hflow⟩ := hknown id s hid
    rw [hrecv, hflow]
    exact h.known id s₀ hs₀

/-- Inserting data leaves the limit of the stream alone. -/
theorem insertRanges_maxOffset (offset : Nat) (data : Bytes) (ranges : List (Nat × Nat))
    (r : ReceiveStream) :
    Ends (insertRanges offset data ranges) r (fun _ r' => r'.maxOffset = r.maxOffset)
      fun _ r' => r'.maxOffset = r.maxOffset := by
  induction ranges generalizing r with
  | nil => rfl
  | cons range rest ih =>
      obtain ⟨start, stop⟩ := range
      simp only [insertRanges, ends_steps]
      exact ⟨fun _ => trivial, fun _ => (ih _).mono (fun _ _ h => h) fun _ _ h => h⟩

theorem deliverLoop_maxOffset (fuel : Nat) (r : ReceiveStream) :
    Ends (deliverLoop fuel) r (fun _ r' => r'.maxOffset = r.maxOffset)
      fun _ r' => r'.maxOffset = r.maxOffset := by
  induction fuel generalizing r with
  | zero => rfl
  | succ fuel ih =>
      simp only [deliverLoop, ends_bind, ends_get]
      split
      · rfl
      · simp only [ends_bind, ends_modify]
        split
        · rfl
        · simp only [ends_bind, ends_modify]
          exact (ih _).mono (fun _ _ h => h) fun _ _ h => h

theorem insertSegment_maxOffset (offset : Nat) (data : Bytes) (fin : Bool) (r : ReceiveStream) :
    Ends (insertSegment offset data fin) r (fun _ r' => r'.maxOffset = r.maxOffset)
      fun _ r' => r'.maxOffset = r.maxOffset := by
  simp only [insertSegment, ends_bind, ends_get]
  split
  · rfl
  · simp only [ends_steps, ends_ofExcept, deliverContiguous]
    refine ⟨fun _ => trivial, fun _ => ⟨fun _ _ => ?_, fun _ _ => trivial⟩⟩
    refine (insertRanges_maxOffset _ _ _ _).mono (fun _ r₁ h => ?_) fun _ _ h => h
    exact (deliverLoop_maxOffset _ _).mono (fun _ _ h' => h'.trans h) fun _ _ h' => h'.trans h

theorem highest_concat (initial limit : Nat) (limits : List Nat) :
    highest initial (limits ++ [limit]) = max (highest initial limits) limit := by
  rw [highest, List.foldl_append]
  rfl

/-- What `consume` answers is the new limit, and it is above the old one. -/
theorem ReceiveFlowControl.consume_cases (flow : ReceiveFlowControl) (amount : Nat) :
    (flow.consume amount).1 = none ∧
        (flow.consume amount).2.advertisedOffset = flow.advertisedOffset ∨
      ∃ limit, (flow.consume amount).1 = some limit ∧ flow.advertisedOffset < limit ∧
        (flow.consume amount).2.advertisedOffset = limit := by
  unfold ReceiveFlowControl.consume
  dsimp only
  split
  · next h => exact .inr ⟨_, rfl, h, rfl⟩
  · exact .inl ⟨rfl, rfl⟩

/-- A stream's new limit goes with its announcement. -/
theorem View.Limits.announced (h : v.Limits) {id limit : Nat} {s : StreamRecord}
    (pending : List QueuedFrame) (hs : s.recvFlow.advertisedOffset = limit)
    (hrecv : s.recv.maxOffset = limit)
    (hl : highest v.streamWindow (streamLimits id v.queued) < limit) :
    ({ v.put id s with
        pending := pending
        queued := v.queued ++ [.maxStreamData ⟨id, limit⟩] } : View).Limits := by
  have hother : ∀ i, i ≠ id →
      streamLimits i (v.queued ++ [.maxStreamData ⟨id, limit⟩]) = streamLimits i v.queued := by
    intro i hi
    rw [streamLimits, List.filterMap_append]
    simp [Ne.symm hi]
  have hsame : streamLimits id (v.queued ++ [.maxStreamData ⟨id, limit⟩]) =
      streamLimits id v.queued ++ [limit] := by
    rw [streamLimits, List.filterMap_append]
    simp
  have hsilent : connectionLimits (v.queued ++ [.maxStreamData ⟨id, limit⟩]) = [] := by
    rw [connectionLimits, List.filterMap_append]
    exact List.append_eq_nil_iff.2 ⟨h.silent, rfl⟩
  refine ⟨h.stored, hsilent, h.window, h.advertised, h.limit, fun i hi => ?_, fun i s' hi => ?_⟩
  · by_cases hid : i = id
    · rw [hid] at hi
      exact absurd ((View.put_self v id s).symm.trans hi) (by simp)
    · exact (hother i hid).trans (h.unknown i ((View.put_of_ne hid).symm.trans hi))
  · by_cases hid : i = id
    · rw [hid] at hi ⊢
      cases (View.put_self v id s).symm.trans hi
      refine ⟨hs.trans hrecv.symm, hrecv.trans ?_⟩
      show limit = highest v.streamWindow (streamLimits id (v.queued ++ _))
      rw [hsame, highest_concat]
      exact (max_eq_right hl.le).symm
    · show _ ∧ _ = highest v.streamWindow (streamLimits i (v.queued ++ _))
      rw [hother i hid]
      exact h.known i s' ((View.put_of_ne hid).symm.trans hi)

/-- Consuming raises the limit of the connection by what was consumed, up to the
largest offset there is. -/
theorem View.Limits.consume (h : v.Limits) (amount : Nat) :
    ({ v with receive := (v.receive.consume amount).2 } : View).Limits := by
  have hwindow := h.window
  have hadv := h.advertised
  have hlimit := h.limit
  refine ⟨h.stored, h.silent, ?_, ?_, ?_, h.unknown, h.known⟩
  all_goals
    unfold ReceiveFlowControl.consume
    dsimp only
    split
  · exact hwindow
  · exact hwindow
  · rfl
  · exact hadv
  all_goals
    unfold saturatingAdd View.connectionWindow at *
    dsimp only
    omega

/-- A read raises the limits: the stream's with its announcement, the
connection's without. -/
theorem View.Limits.read (h : v.Limits) {id : Nat} {s : StreamRecord} (maxLen : Nat)
    (hs : v.streams id = some s) : (v.read id maxLen s).Limits := by
  obtain ⟨hadv, hmax⟩ := h.known id s hs
  rcases s.recvFlow.consume_cases (s.recv.ready.take maxLen).length with
    ⟨hnone, hsame⟩ | ⟨limit, hsome, hlt, hnew⟩
  · have hw : (s.read maxLen).1.windowUpdate = none := hnone
    have hkeep : (s.read maxLen).2.recv.maxOffset = s.recv.maxOffset := by
      show ((s.recvFlow.consume _).1).getD _ = _
      rw [show (s.recvFlow.consume _).1 = none from hnone]
      rfl
    refine View.read_rule (fun m hm => ?_) (fun _ => h.put ?_ ?_)
      fun _ amount h' => h'.consume amount
    · cases hw.symm.trans hm
    · rw [hkeep, ← hadv]
      exact hsame
    · rw [hkeep]
      exact hmax
  · have hw : (s.read maxLen).1.windowUpdate = some limit := hsome
    refine View.read_rule (fun m hm => ?_) (fun hm => ?_) fun _ amount h' => h'.consume amount
    · cases hw.symm.trans hm
      refine h.announced _ hnew ?_ ?_
      · show ((s.recvFlow.consume _).1).getD _ = _
        rw [show (s.recvFlow.consume _).1 = some limit from hsome]
        rfl
      · omega
    · cases hw.symm.trans hm

/-- Every edit keeps the limits as they are announced. -/
theorem Edit.limits (e : Edit suite L k v v') (h : v.Limits) : v'.Limits := by
  have hown : ∀ f, Own f ∨ v.stored = some f →
      connectionLimits [f] = [] ∧ ∀ id, streamLimits id [f] = [] :=
    fun f hf => announces_nothing (hf.imp_right (h.stored f))
  cases e with
  | turn st => exact h.congr rfl rfl rfl rfl rfl h.stored
  | hearClient p hello =>
      obtain ⟨hs, hc⟩ := v.hearClient_windows hello
      exact h.congr rfl rfl rfl hs hc h.stored
  | answerClient p hello keys =>
      obtain ⟨hs, hc⟩ := v.hearClient_windows hello
      refine h.congr rfl rfl rfl hs hc fun f hf => ?_
      cases hf
      trivial
  | hearServer p hello => exact h.congr rfl rfl rfl rfl rfl h.stored
  | answerServer p hello nonce keys =>
      refine h.congr rfl rfl rfl rfl rfl fun f hf => ?_
      cases hf
      trivial
  | secure keys => exact h.congr rfl rfl rfl rfl rfl h.stored
  | establish keys => exact h.congr rfl rfl rfl rfl rfl h.stored
  | retry p cookie =>
      refine h.congr rfl rfl rfl rfl rfl fun f hf => ?_
      cases hf
      trivial
  | retries n => exact h.congr rfl rfl rfl rfl rfl h.stored
  | enqueue f hf => exact h.queued _ (hown f hf).1 (hown f hf).2
  | enqueueFront f hf => exact h.queued _ (hown f hf).1 (hown f hf).2
  | opened id hk hst hs => exact h.put rfl (by rw [h.unknown id hs]; rfl)
  | announce id hk hst hs => exact h.queued _ rfl fun _ => rfl
  | accept p o hk hf hst hs => exact h.put rfl (by rw [h.unknown _ hs]; rfl)
  | write id data fin s mb mc n send hk hst hs hopen hw => exact h.keep hs rfl rfl
  | read id maxLen s hk hs => exact h.read maxLen hs
  | insert p d s newBytes n recv hk hf hst hs hopen hnew hroom hrun =>
      have hput := @View.Limits.keep _ h _ _ { s with recv := recv } hs rfl
        ((insertSegment_maxOffset _ _ _ _).ok hrun)
      exact ⟨hput.stored, hput.silent, hput.window, hput.advertised, hput.limit, hput.unknown,
        hput.known⟩
  | reject p d s e recv hl hk hf hs hopen hrun =>
      exact h.keep hs rfl ((insertSegment_maxOffset _ _ _ _).error hrun)
  | finish id s hs hfin => exact h.keep hs rfl rfl
  | limit p u s hk hf hs => exact h.keep hs rfl rfl
  | grant p m => exact h.congr rfl rfl rfl rfl rfl h.stored
  | reset p r s hk hf hs => exact h.keep hs rfl rfl
  | record p ranges => exact h.congr rfl rfl rfl rfl rfl h.stored
  | ack p a n sp => exact h.congr rfl rfl rfl rfl rfl h.stored
  | lose n count sp hs hc hknown =>
      have hforget : (v.forget n).Limits := h.congr rfl rfl rfl rfl rfl h.stored
      exact hforget.outward (View.outward_putBackAll _ _ _)
  | drop n count m sp hl hs hc =>
      have hforget : (v.forget n).Limits := h.congr rfl rfl rfl rfl rfl h.stored
      exact hforget.outward (View.outward_putBackAll _ _ _)
  | sendAck a => exact h.congr rfl rfl rfl rfl rfl h.stored
  | emit q v₁ sp ht =>
      have h₁ := h.outward ht.outward
      obtain ⟨sent, hsent⟩ := v₁.account_eq q
      rw [hsent]
      exact h₁.congr rfl rfl rfl rfl rfl h₁.stored
  | pass q v₁ ht =>
      have h₁ := h.outward ht.outward
      obtain ⟨sent, hsent⟩ := v₁.account_eq q
      rw [hsent]
      exact h₁.congr rfl rfl rfl rfl rfl h₁.stored
  | lost q v₁ next hl ht =>
      have h₁ := h.outward ht.outward
      exact h₁.congr rfl rfl rfl rfl rfl h₁.stored
  | back q v₁ ht => exact h.outward (ht.outward.trans (v₁.outward_putBack _ _))
  | drain => exact h.congr rfl rfl rfl rfl rfl h.stored

theorem Edits.limits (e : Edits suite L k v v') (h : v.Limits) : v'.Limits := by
  induction e with
  | refl => exact h
  | tail _ e ih => exact e.limits ih

/-! ## What reads consume -/

/-- Only a read consumes. -/
theorem Edit.consumed (e : Edit suite L k v v') (hk : ∀ id maxLen, k ≠ .reading id maxLen) :
    v'.receive.consumed = v.receive.consumed := by
  cases e with
  | read id maxLen s hk' => exact absurd hk' (hk id maxLen)
  | lose n count sp hs hc hknown =>
      exact congrArg _ (View.outward_putBackAll (v.forget n) count _).fields.2.2.2.2
  | drop n count m sp hl hs hc =>
      exact congrArg _ (View.outward_putBackAll (v.forget n) count _).fields.2.2.2.2
  | emit q v₁ sp ht =>
      obtain ⟨sent, hsent⟩ := v₁.account_eq q
      rw [hsent]
      exact congrArg _ ht.outward.fields.2.2.2.2
  | pass q v₁ ht =>
      obtain ⟨sent, hsent⟩ := v₁.account_eq q
      rw [hsent]
      exact congrArg _ ht.outward.fields.2.2.2.2
  | lost q v₁ next hl ht => exact congrArg _ ht.outward.fields.2.2.2.2
  | back q v₁ ht =>
      exact congrArg _ (ht.outward.trans (v₁.outward_putBack _ _)).fields.2.2.2.2
  | _ => rfl

theorem Edits.consumed (e : Edits suite L k v v') (hk : ∀ id maxLen, k ≠ .reading id maxLen) :
    v'.receive.consumed = v.receive.consumed := by
  induction e with
  | refl => rfl
  | tail _ e ih => exact (e.consumed hk).trans ih

theorem consumed_consume (flow : ReceiveFlowControl) (amount : Nat) :
    (flow.consume amount).2.consumed = saturatingAdd flow.consumed amount := by
  unfold ReceiveFlowControl.consume
  dsimp only
  split <;> rfl

theorem View.read_consumed (id maxLen : Nat) (s : StreamRecord) :
    0 < (v.read id maxLen s).receive.consumed ↔
      0 < v.receive.consumed ∨ 0 < maxLen ∧ s.recv.ready ≠ [] := by
  have hdata : (s.read maxLen).1.data = s.recv.ready.take maxLen := rfl
  have hempty : s.recv.ready.take maxLen = [] ↔ ¬ (0 < maxLen ∧ s.recv.ready ≠ []) := by
    rw [List.take_eq_nil_iff]
    constructor
    · rintro (h | h) ⟨h₁, h₂⟩
      · omega
      · exact h₂ h
    · intro h
      by_cases hlen : maxLen = 0
      · exact .inl hlen
      · exact .inr (not_not.1 fun hne => h ⟨Nat.pos_of_ne_zero hlen, hne⟩)
  unfold View.read
  dsimp only
  rw [hdata]
  split
  · next hnil =>
      have hnone := hempty.1 (List.isEmpty_iff.1 hnil)
      have hkeep : ∀ v₁ : View, v₁.receive = v.receive →
          (0 < v₁.receive.consumed ↔ 0 < v.receive.consumed ∨ _) := fun v₁ h₁ => by
        rw [h₁]
        exact ⟨.inl, fun h => h.resolve_right hnone⟩
      split <;> exact hkeep _ rfl
  · next hnil =>
      have htakes : 0 < maxLen ∧ s.recv.ready ≠ [] :=
        not_not.1 fun hnot => hnil (List.isEmpty_iff.2 (hempty.2 hnot))
      have hlen : 0 < (s.recv.ready.take maxLen).length :=
        List.length_pos_iff.2 fun h => hempty.1 h htakes
      refine ⟨fun _ => .inr htakes, fun _ => ?_⟩
      show 0 < (ReceiveFlowControl.consume _ _).2.consumed
      rw [consumed_consume]
      unfold saturatingAdd u64Max
      omega

/-- The count of consumed bytes leaves zero at the first read that takes a
byte. -/
theorem perform_consumed (suite : Suite) (c : Connection) (op : Op) :
    0 < (after (perform suite op) c).view.receive.consumed ↔
      0 < c.view.receive.consumed ∨ TakesBytes c op := by
  have hother : ∀ k, Edits suite True k c.view (after (perform suite op) c).view →
      (∀ id maxLen, k ≠ .reading id maxLen) → ¬ TakesBytes c op →
      (0 < (after (perform suite op) c).view.receive.consumed ↔
        0 < c.view.receive.consumed ∨ TakesBytes c op) := fun k h hk hnot => by
    rw [h.consumed hk]
    exact ⟨.inl, fun h => h.resolve_right hnot⟩
  cases op with
  | readStream id maxLen =>
      have hafter : ∀ {L s c'}, c.view.streams id = some s → (∀ e, s.state ≠ .reset e) →
          Edits suite L .other (c.view.read id maxLen s) (Connection.view c') →
          (0 < c'.view.receive.consumed ↔
            0 < c.view.receive.consumed ∨ TakesBytes c (.readStream id maxLen)) := by
        intro L s c' hs hlive h
        rw [h.consumed (by simp), View.read_consumed]
        refine or_congr_right ⟨fun ht => ⟨ht.1, s, hs, ht.2, hlive⟩, fun ht => ?_⟩
        obtain ⟨hlen, s', hs', hready, _⟩ := ht
        cases hs.symm.trans hs'
        exact ⟨hlen, hready⟩
      refine Ends.after (P := fun c' => 0 < c'.view.receive.consumed ↔ _)
        (ends_map.2 ((readStream_ends suite id maxLen).mono (fun r c' h => ?_) fun _ c' h => ?_))
      · obtain ⟨s, hs, hlive, _, h⟩ := h
        exact hafter hs hlive h
      · rcases h with ⟨hview, hnot⟩ | ⟨s, hs, hlive, h⟩
        · rw [hview]
          refine ⟨.inl, fun h => h.resolve_right fun ht => ?_⟩
          obtain ⟨_, s, hs, _, hlive⟩ := ht
          obtain ⟨e, he⟩ := hnot s hs
          exact hlive e he
        · exact hafter hs hlive h
  | onDatagram p => exact hother _ (perform_edits suite _ c) (by simp [cause]) id
  | onDatagramBytes bytes =>
      refine hother _ (perform_edits suite _ c) (fun id maxLen heq => ?_) id
      have heq : (decoded suite bytes c).elim Cause.other Cause.packet = .reading id maxLen := heq
      cases hd : decoded suite bytes c with
      | none =>
          rw [hd] at heq
          cases heq
      | some p =>
          rw [hd] at heq
          cases heq
  | advanceTime elapsed => exact hother _ (perform_edits suite _ c) (by simp [cause]) id
  | openStream => exact hother _ (perform_edits suite _ c) (by simp [cause]) id
  | writeStream id data fin =>
      exact hother _ (perform_edits suite _ c) (by simp [cause]) fun h => h
  | close errorCode reason => exact hother _ (perform_edits suite _ c) (by simp [cause]) id
  | drainOutput => exact hother _ (perform_edits suite _ c) (by simp [cause]) id

theorem final_limits (suite : Suite) {c : Connection} (ops : List Op) (h : c.view.Limits) :
    (final suite c ops).view.Limits :=
  final_keeps suite (I := fun d => d.view.Limits) ops h
    fun d op hd => (perform_edits suite op d).limits hd

theorem final_windows (suite : Suite) {c : Connection} (ops : List Op) :
    (final suite c ops).view.streamWindow = c.view.streamWindow ∧
      (final suite c ops).view.connectionWindow = c.view.connectionWindow := by
  refine final_keeps suite (I := fun d => d.view.streamWindow = c.view.streamWindow ∧
    d.view.connectionWindow = c.view.connectionWindow) ops ⟨rfl, rfl⟩ fun d op h => ?_
  obtain ⟨_, _, hstream, hconnection⟩ := (perform_edits suite op d).constant
  exact ⟨hstream.trans h.1, hconnection.trans h.2⟩

/-- Something was consumed over a run if one of its operations takes bytes. -/
theorem final_consumed (suite : Suite) (c : Connection) (ops : List Op) :
    0 < (final suite c ops).view.receive.consumed ↔
      0 < c.view.receive.consumed ∨
        ∃ before op rest, ops = before ++ op :: rest ∧ TakesBytes (final suite c before) op := by
  induction ops generalizing c with
  | nil => simp [final]
  | cons op ops ih =>
      rw [final_cons, ih, perform_consumed, or_assoc]
      refine or_congr_right ⟨fun h => ?_, fun h => ?_⟩
      · rcases h with h | ⟨before, op', rest, rfl, h⟩
        · exact ⟨[], op, ops, rfl, h⟩
        · exact ⟨op :: before, op', rest, rfl, h⟩
      · obtain ⟨before, op', rest, heq, h⟩ := h
        cases before with
        | nil =>
            cases heq
            exact .inl h
        | cons op₀ before =>
            cases heq
            exact .inr ⟨before, op', rest, rfl, h⟩

theorem initial_limits (suite : Suite) (role : ConnectionRole) (id : Nat)
    (config : ConnectionConfig) (handshake : HandshakeState)
    (hunused : handshake.Unused id config) :
    (View.initial suite role id config handshake).Limits := by
  obtain ⟨keyPair, nonce, rfl⟩ := hunused
  have hlimit : config.initialConnectionWindow = max config.initialConnectionWindow
      (min (0 + config.initialConnectionWindow) u64Max) := by omega
  cases role with
  | client =>
      refine ⟨fun f hf => ?_, rfl, rfl, rfl, hlimit, fun _ _ => rfl, fun id s hs => ?_⟩
      · cases hf
        trivial
      · cases hs
  | server =>
      refine ⟨fun f hf => ?_, rfl, rfl, rfl, hlimit, fun _ _ => rfl, fun id s hs => ?_⟩
      · cases hf
      · cases hs

/-- Over every run, the limits in force are the ones announced exactly as long as
no read has taken a byte, or the window is so large that it cannot grow. -/
theorem advertised_iff (suite : Suite) {role : ConnectionRole} {config : ConnectionConfig}
    {c : Connection} (hfresh : Fresh suite role config c) (ops : List Op) :
    Advertised config (final suite c ops) ↔
      u64Max ≤ config.initialConnectionWindow ∨
        ∀ before op rest, ops = before ++ op :: rest → ¬ TakesBytes (final suite c before) op := by
  obtain ⟨_, id, handshake, hunused, hedits⟩ := fresh_edits hfresh
  have hlimits := final_limits suite ops (hedits.limits
    (initial_limits suite role id config handshake hunused))
  have hconsumed : c.view.receive.consumed = 0 := (hedits.consumed (by simp)).trans rfl
  obtain ⟨_, _, hstream, hconnection⟩ := hedits.constant
  obtain ⟨hstream', hconnection'⟩ := final_windows suite (c := c) ops
  have hs : (final suite c ops).view.streamWindow = config.initialStreamWindow :=
    hstream'.trans hstream
  have hc : (final suite c ops).view.connectionWindow = config.initialConnectionWindow :=
    hconnection'.trans hconnection
  have hrun := final_consumed suite c ops
  rw [hconsumed] at hrun
  have hstreams : ∀ streamId s, (final suite c ops).streams.streams[streamId]? = some s →
      s.recv.maxOffset = highest config.initialStreamWindow
        (streamLimits streamId (final suite c ops).transport.queued) := by
    intro streamId s hs'
    rw [← hs]
    exact (hlimits.known streamId s hs').2
  have hlimit := hlimits.limit
  rw [hc] at hlimit
  have hsilent : connectionLimits (final suite c ops).transport.queued = [] := hlimits.silent
  unfold Advertised
  rw [hsilent, and_iff_left hstreams]
  show (final suite c ops).view.receive.maxOffset = config.initialConnectionWindow ↔ _
  rw [hlimit]
  have htakes : (∀ before op rest, ops = before ++ op :: rest →
      ¬ TakesBytes (final suite c before) op) ↔
      (final suite c ops).view.receive.consumed = 0 := by
    constructor
    · intro hnone
      refine Nat.eq_zero_of_not_pos fun hpos => ?_
      rcases hrun.1 hpos with h | ⟨before, op, rest, heq, h⟩
      · omega
      · exact hnone before op rest heq h
    · intro hzero before op rest heq h
      have := hrun.2 (.inr ⟨before, op, rest, heq, h⟩)
      omega
  rw [htakes]
  unfold u64Max
  omega

theorem advertised_of_no_read : ∃ c, Fresh sampleSuite .server {} c ∧
    Advertised {} (final sampleSuite c (samplePackets.map .onDatagram)) := by
  obtain ⟨c, hc, _⟩ := of_checks (r := sampleConnection .server {}) (p := fun _ => true)
    (by decide +kernel)
  refine ⟨c, sampleConnection_fresh hc, (advertised_iff sampleSuite (sampleConnection_fresh hc)
    _).2 (.inr fun before op rest heq htakes => ?_)⟩
  have hmem : op ∈ samplePackets.map Op.onDatagram := by
    rw [heq]
    simp
  obtain ⟨p, _, rfl⟩ := List.mem_map.1 hmem
  exact htakes

/-- The server reads the one byte: its limit is one higher, and nothing says so. -/
theorem not_advertised_after_read : ∃ c, Fresh sampleSuite .server {} c ∧
    ¬ Advertised {} (final sampleSuite c
      (samplePackets.map .onDatagram ++ [.readStream 0 10])) := by
  obtain ⟨c, hc, hp⟩ := of_checks (r := sampleConnection .server {})
    (p := fun c => decide ((final sampleSuite c
      (samplePackets.map .onDatagram ++ [.readStream 0 10])).connectionReceive.maxOffset ≠
        highest (4 * 1024 * 1024) (connectionLimits (final sampleSuite c
          (samplePackets.map .onDatagram ++ [.readStream 0 10])).transport.queued)))
    (by decide +kernel)
  exact ⟨c, sampleConnection_fresh hc, fun h => of_decide_eq_true hp h.1⟩

end DartUdp.Core
