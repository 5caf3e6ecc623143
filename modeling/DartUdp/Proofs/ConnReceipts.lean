import DartUdp.Proofs.ConnStages
import DartUdp.Proofs.ConnWindows
import DartUdp.Proofs.Reassembly

/-!
# What a connection has received

The number of bytes a connection counts as received is what its streams have,
read or not. What a frame of stream data brings is predicted before it is stored
and counted after, and both are the offsets that were missing. So a frame that
is refused is refused before anything is written, and no stream holds more than
its window or the buffer has room for.

The module is for `receive_accounting`. `Edit.metered` keeps the count, and
`StreamRecord.Metered.insert` is the edit that adds to it; `insertData_buffered`
bounds what a stream holds, and `processStreamData_refused` is a frame beyond a
limit.
-/

namespace DartUdp.Core

open DartUdp.Lib DartUdp.Udp

variable {suite : Suite} {L : Prop} {k : Cause} {c : Connection} {v v' : View} {id : Nat}
  {s s' : StreamRecord} {window buffer : Nat}

/-- What a stream holds is within its window and the buffer, and the window moves
with what was read. -/
structure StreamRecord.Metered (window buffer : Nat) (s : StreamRecord) : Prop where
  sound : s.recv.Sound
  consumed : s.recvFlow.consumed + s.recv.ready.length = s.recv.nextOffset
  windowSize : s.recvFlow.windowSize = window
  advertised : s.recvFlow.advertisedOffset = s.recv.maxOffset
  limit : s.recv.maxOffset ≤ s.recvFlow.consumed + window
  buffered : s.recv.bufferedLen ≤ buffer

/-- The bytes received on a stream that may be there. -/
def receivedOn (s : Option StreamRecord) : Nat := s.elim 0 fun s => s.recv.received

/-- The bytes received are those of the streams, however many streams are looked
at as long as none that is there is left out. -/
structure View.Metered (v : View) : Prop where
  streams : ∀ id s, v.streams id = some s → s.Metered v.streamWindow v.config.maxReceiveBuffer
  total : ∀ ids : Finset Nat, (∀ id, (v.streams id).isSome → id ∈ ids) →
    ∑ id ∈ ids, receivedOn (v.streams id) = v.receive.uniqueReceived
  limit : v.receive.uniqueReceived ≤ v.receive.maxOffset
  advertised : v.receive.advertisedOffset = v.receive.maxOffset

/-! ## One stream -/

theorem StreamRecord.Metered.within (h : s.Metered window buffer) :
    s.recv.bufferedLen ≤ min window buffer := by
  have hreceived := received_le h.sound
  have hlimit : s.recv.limit ≤ s.recv.maxOffset := Nat.min_le_left _ _
  have hconsumed := h.consumed
  have hwindow := h.limit
  refine le_min ?_ h.buffered
  rw [bufferedLen_eq]
  unfold ReceiveStream.received at hreceived
  omega

theorem metered_new {bidirectional : Bool} {sendWindow : Nat} :
    (StreamRecord.new id bidirectional sendWindow window).Metered window buffer :=
  ⟨⟨Nat.zero_le _, .empty⟩, rfl, rfl, rfl, Nat.le_add_left _ _, Nat.zero_le _⟩

/-- The limit that comes with a consumption is within the window. -/
theorem ReceiveFlowControl.consume_limits (flow : ReceiveFlowControl) (amount : Nat) :
    (flow.consume amount).2.windowSize = flow.windowSize ∧
      (flow.consume amount).2.uniqueReceived = flow.uniqueReceived ∧
      ((flow.consume amount).1 = none ∧
          (flow.consume amount).2.advertisedOffset = flow.advertisedOffset ∧
          (flow.consume amount).2.maxOffset = flow.maxOffset ∨
        ∃ limit, (flow.consume amount).1 = some limit ∧ flow.advertisedOffset < limit ∧
          limit ≤ (flow.consume amount).2.consumed + flow.windowSize ∧
          (flow.consume amount).2.advertisedOffset = limit ∧
          (flow.consume amount).2.maxOffset = limit) := by
  unfold ReceiveFlowControl.consume
  dsimp only
  split
  · next h => exact ⟨rfl, rfl, .inr ⟨_, rfl, h, saturatingAdd_le _ _, rfl, rfl⟩⟩
  · exact ⟨rfl, rfl, .inl ⟨rfl, rfl, rfl⟩⟩

/-- A read makes as much room as it takes bytes. -/
theorem StreamRecord.Metered.read (h : s.Metered window buffer) (maxLen : Nat) :
    (s.read maxLen).2.Metered window buffer ∧
      (s.read maxLen).2.recv.received = s.recv.received := by
  have hbound : s.recv.limit ≤ u64Max := Nat.min_le_right _ _
  have hcontiguous := h.sound.contiguous
  have hconsumed := h.consumed
  have hwindow := h.limit
  have hadvertised := h.advertised
  have htake : (s.recv.ready.take maxLen).length + (s.recv.ready.drop maxLen).length =
      s.recv.ready.length := by
    rw [← List.length_append, List.take_append_drop]
  have hflow := consumed_consume s.recvFlow (s.recv.ready.take maxLen).length
  rw [saturatingAdd_of_le (by omega)] at hflow
  obtain ⟨hsize, -, hcases⟩ := s.recvFlow.consume_limits (s.recv.ready.take maxLen).length
  rw [h.windowSize] at hsize hcases
  have hmax : (s.read maxLen).2.recv.maxOffset =
      (s.recvFlow.consume (s.recv.ready.take maxLen).length).1.getD s.recv.maxOffset := rfl
  have hgrows : s.recv.maxOffset ≤ (s.read maxLen).2.recv.maxOffset ∧
      (s.read maxLen).2.recvFlow.advertisedOffset = (s.read maxLen).2.recv.maxOffset ∧
      (s.read maxLen).2.recv.maxOffset ≤ (s.read maxLen).2.recvFlow.consumed + window := by
    show _ ∧ (s.recvFlow.consume _).2.advertisedOffset = _ ∧
      _ ≤ (s.recvFlow.consume _).2.consumed + window
    rw [hmax]
    rcases hcases with ⟨hnone, hsame, -⟩ | ⟨limit, hsome, hlt, hle, hnew, -⟩
    · rw [hnone, Option.getD_none]
      exact ⟨le_rfl, hsame.trans hadvertised, by omega⟩
    · rw [hsome, Option.getD_some]
      exact ⟨by omega, hnew, hle⟩
  refine ⟨⟨⟨?_, ?_⟩, ?_, hsize, hgrows.2.1, hgrows.2.2, ?_⟩, rfl⟩
  · exact hcontiguous.trans (min_le_min_right _ hgrows.1)
  · exact h.sound.segments.mono (min_le_min_right _ hgrows.1)
  · show (s.recvFlow.consume _).2.consumed + (s.recv.ready.drop maxLen).length = s.recv.nextOffset
    omega
  · have hbuffered := h.buffered
    rw [bufferedLen_eq] at hbuffered ⊢
    show (s.recv.ready.drop maxLen).length + mapSum s.recv.segments List.length ≤ buffer
    omega

/-- What is inserted fits when it was let in. -/
theorem StreamRecord.Metered.insert {offset n : Nat} {data : Bytes} {recv : ReceiveStream}
    (h : s.Metered window buffer) (hi : s.recv.Inserts offset data n recv)
    (hroom : n ≤ buffer - s.recv.bufferedLen) :
    StreamRecord.Metered window buffer { s with recv := recv } := by
  have hready := hi.ready
  have hbuffered := hi.buffered
  have hfits := h.buffered
  have hconsumed := h.consumed
  refine ⟨hi.sound, ?_, h.windowSize, h.advertised.trans hi.maxOffset.symm, ?_, ?_⟩
  · show s.recvFlow.consumed + recv.ready.length = recv.nextOffset
    omega
  · show recv.maxOffset ≤ _
    rw [hi.maxOffset]
    exact h.limit
  · show recv.bufferedLen ≤ buffer
    omega

/-! ## All streams -/

/-- A record written back moves the sum by what the stream received. -/
theorem sum_received_put {ids : Finset Nat} {n : Nat} (hid : id ∈ ids)
    (hn : s'.recv.received = receivedOn (v.streams id) + n) :
    ∑ i ∈ ids, receivedOn ((v.put id s').streams i) = ∑ i ∈ ids, receivedOn (v.streams i) + n := by
  have hrest : ∑ i ∈ ids.erase id, receivedOn ((v.put id s').streams i) =
      ∑ i ∈ ids.erase id, receivedOn (v.streams i) :=
    Finset.sum_congr rfl fun i hi => by rw [View.put_of_ne (Finset.ne_of_mem_erase hi)]
  have hself : receivedOn ((v.put id s').streams id) = receivedOn (v.streams id) + n := by
    rw [View.put_self]
    exact hn
  rw [← Finset.add_sum_erase ids _ hid, hrest, hself,
    ← Finset.add_sum_erase ids (fun i => receivedOn (v.streams i)) hid]
  omega

theorem View.Metered.put (h : v.Metered) {n : Nat}
    (hs : s'.Metered v.streamWindow v.config.maxReceiveBuffer)
    (hn : s'.recv.received = receivedOn (v.streams id) + n)
    (hlimit : v.receive.uniqueReceived + n ≤ v.receive.maxOffset) :
    View.Metered
      { v.put id s' with
        receive := { v.receive with uniqueReceived := v.receive.uniqueReceived + n } } := by
  refine ⟨fun i s hi => ?_, fun ids hids => ?_, hlimit, h.advertised⟩
  · rcases View.put_cases hi with ⟨_, rfl⟩ | ⟨_, hi⟩
    · exact hs
    · exact h.streams i s hi
  · have hid : id ∈ ids := hids id (by
      show ((v.put id s').streams id).isSome
      rw [View.put_self]
      rfl)
    have hknown : ∀ i, (v.streams i).isSome → i ∈ ids := fun i hi => by
      by_cases heq : i = id
      · rw [heq]
        exact hid
      · exact hids i ((congrArg Option.isSome (View.put_of_ne heq)).trans hi)
    exact (sum_received_put hid hn).trans (congrArg (· + n) (h.total ids hknown))

/-- The receiving side of a stream is left as it was. -/
theorem View.Metered.keep (h : v.Metered) (hs : v.streams id = some s)
    (hrecv : s'.recv = s.recv) (hflow : s'.recvFlow = s.recvFlow) : (v.put id s').Metered := by
  have hm := h.streams id s hs
  have hm' : s'.Metered v.streamWindow v.config.maxReceiveBuffer := by
    refine ⟨?_, ?_, ?_, ?_, ?_, ?_⟩ <;> simp only [hrecv, hflow]
    · exact hm.sound
    · exact hm.consumed
    · exact hm.windowSize
    · exact hm.advertised
    · exact hm.limit
    · exact hm.buffered
  refine h.put (n := 0) hm' ?_ h.limit
  rw [hs, hrecv]
  rfl

/-- The invariant is about the streams, two windows and the limit. -/
theorem View.Metered.congr (h : v.Metered) (hstreams : v'.streams = v.streams)
    (hreceive : v'.receive = v.receive) (hwindow : v'.streamWindow = v.streamWindow)
    (hbuffer : v'.config.maxReceiveBuffer = v.config.maxReceiveBuffer) : v'.Metered := by
  refine ⟨?_, ?_, ?_, ?_⟩
  · rw [hstreams, hwindow, hbuffer]
    exact h.streams
  · rw [hstreams, hreceive]
    exact h.total
  · rw [hreceive]
    exact h.limit
  · rw [hreceive]
    exact h.advertised

theorem View.Metered.outward (h : v.Metered) (ho : v.Outward v') : v'.Metered := by
  have hknown := fun id s => @View.Outward.known _ _ ho id s
  have hunknown := fun id => @View.Outward.unknown _ _ ho id
  have hsame : ∀ id, receivedOn (v'.streams id) = receivedOn (v.streams id) := by
    intro id
    cases hs : v'.streams id with
    | none => rw [(hunknown id).1 hs]
    | some s =>
        obtain ⟨s₀, hs₀, _, hrecv, _⟩ := hknown id s hs
        rw [hs₀, receivedOn, receivedOn, Option.elim_some, Option.elim_some, hrecv]
  obtain ⟨_, _, hwindow, _, hreceive⟩ := ho.fields
  refine ⟨fun id s hs => ?_, fun ids hids => ?_, ?_, ?_⟩
  · obtain ⟨s₀, hs₀, _, hrecv, hflow⟩ := hknown id s hs
    have hm := h.streams id s₀ hs₀
    rw [hwindow, ho.config]
    refine ⟨?_, ?_, ?_, ?_, ?_, ?_⟩ <;> simp only [hrecv, hflow]
    · exact hm.sound
    · exact hm.consumed
    · exact hm.windowSize
    · exact hm.advertised
    · exact hm.limit
    · exact hm.buffered
  · rw [hreceive, Finset.sum_congr rfl fun id _ => hsame id]
    refine h.total ids fun id hid => hids id ?_
    rw [Option.isSome_iff_ne_none] at hid ⊢
    exact fun hnone => hid ((hunknown id).1 hnone)
  · rw [hreceive]
    exact h.limit
  · rw [hreceive]
    exact h.advertised

theorem View.Metered.consume (h : v.Metered) (amount : Nat) :
    View.Metered { v with receive := (v.receive.consume amount).2 } := by
  obtain ⟨_, hreceived, hcases⟩ := v.receive.consume_limits amount
  have hlimit := h.limit
  have hadvertised := h.advertised
  refine ⟨h.streams, fun ids hids => (h.total ids hids).trans hreceived.symm, ?_, ?_⟩
  · show (v.receive.consume amount).2.uniqueReceived ≤ (v.receive.consume amount).2.maxOffset
    rw [hreceived]
    rcases hcases with ⟨-, -, hmax⟩ | ⟨limit, -, hlt, -, -, hmax⟩
    · omega
    · omega
  · show (v.receive.consume amount).2.advertisedOffset = (v.receive.consume amount).2.maxOffset
    rcases hcases with ⟨-, hsame, hmax⟩ | ⟨limit, -, hlt, -, hnew, hmax⟩
    · omega
    · omega

theorem View.Metered.read (h : v.Metered) (maxLen : Nat) (hs : v.streams id = some s) :
    (v.read id maxLen s).Metered := by
  obtain ⟨hm, hreceived⟩ := (h.streams id s hs).read maxLen
  have hput : (v.put id (s.read maxLen).2).Metered :=
    h.put (n := 0) hm (by rw [hs]; exact hreceived) h.limit
  exact View.read_rule (fun _ _ => hput.congr rfl rfl rfl rfl) (fun _ => hput)
    fun _ amount h' => h'.consume amount

/-- An insertion that failed changed nothing. -/
theorem View.Metered.reject {offset : Nat} {data : Bytes} {fin : Bool} {e : CoreError}
    {recv : ReceiveStream} (h : v.Metered) (hs : v.streams id = some s)
    (hrun : insertSegment offset data fin s.recv = .error e recv) :
    v.put id { s with recv := recv } = v := by
  have hsame := ((insertSegment_ends (h.streams id s hs).sound).error hrun).1
  have hput : Function.update v.streams id (some s) = v.streams := by
    rw [← hs, Function.update_eq_self]
  rw [hsame, View.put, hput]

/-- Every edit keeps the count. -/
theorem Edit.metered (e : Edit suite L k v v') (h : v.Metered) : v'.Metered := by
  have hwindow := e.constant.2.2.1
  obtain ⟨_, _, hconfig, _⟩ := e.configured
  have hbuffer : v'.config.maxReceiveBuffer = v.config.maxReceiveBuffer := by rw [hconfig]
  cases e with
  | hearClient p hello => exact h.congr rfl rfl hwindow hbuffer
  | answerClient p hello keys => exact h.congr rfl rfl hwindow hbuffer
  | opened id hk hst hs =>
      exact h.put (n := 0) metered_new (by rw [hs]; rfl) h.limit
  | accept p o hk hf hst hs =>
      exact h.put (n := 0) metered_new (by rw [hs]; rfl) h.limit
  | write id data fin s mb mc n send hk hst hs => exact h.keep hs rfl rfl
  | read id maxLen s hk hs => exact h.read maxLen hs
  | insert p d s newBytes n recv hk hf hst hs hopen hnew hroom hrun hfree =>
      have hm := h.streams _ _ hs
      have hinserts := ((insertSegment_ends hm.sound).ok hrun).1
      have hn : n = newBytes := Except.ok.inj (hinserts.newBytes.symm.trans hnew)
      refine h.put (n := newBytes) (hm.insert hinserts (hn ▸ hfree)) ?_ hroom
      rw [hs, ← hn]
      exact hinserts.received
  | reject p d s e recv hl hk hf hs hopen hrun =>
      rw [h.reject hs hrun]
      exact h
  | finish id s hs hfin => exact h.keep hs rfl rfl
  | limit p u s hk hf hs => exact h.keep hs rfl rfl
  | reset p r s hk hf hs => exact h.keep hs rfl rfl
  | lose n count sp hs hc hknown =>
      have hforget : (v.forget n).Metered := h.congr rfl rfl rfl rfl
      exact hforget.outward (View.outward_putBackAll _ _ _)
  | drop n count m sp hl hs hc =>
      have hforget : (v.forget n).Metered := h.congr rfl rfl rfl rfl
      exact hforget.outward (View.outward_putBackAll _ _ _)
  | emit q v₁ sp ht =>
      obtain ⟨sent, hsent⟩ := v₁.account_eq q
      rw [hsent]
      exact (h.outward ht.outward).congr rfl rfl rfl rfl
  | pass q v₁ ht =>
      obtain ⟨sent, hsent⟩ := v₁.account_eq q
      rw [hsent]
      exact (h.outward ht.outward).congr rfl rfl rfl rfl
  | lost q v₁ next hl ht => exact (h.outward ht.outward).congr rfl rfl rfl rfl
  | back q v₁ ht => exact h.outward (ht.outward.trans (v₁.outward_putBack _ _))
  | _ => exact h.congr rfl rfl rfl rfl

theorem initial_metered (suite : Suite) (role : ConnectionRole) (id : Nat)
    (config : ConnectionConfig) (handshake : HandshakeState) :
    (View.initial suite role id config handshake).Metered := by
  refine ⟨fun _ _ hs => ?_, fun ids _ => ?_, Nat.zero_le _, rfl⟩
  · cases hs
  · exact Finset.sum_eq_zero fun _ _ => rfl

/-! ## A frame of stream data -/

/-- What is let in never overflows the buffer, so the check that follows the
insertion finds nothing. -/
theorem insertData_buffered {room n : Nat} {m m' : StreamManager} {data : StreamData}
    {status : StreamDataStatus}
    (hm : ∀ (id : Nat) (s : StreamRecord), m.streams[id]? = some s →
      s.recv.Sound ∧ s.recv.bufferedLen ≤ room)
    (hnew : newDataBytes data room m = .ok n m)
    (hrun : insertData data m = .ok status m') : status.buffered ≤ room := by
  obtain ⟨-, s, hs, hcases⟩ := (newDataBytes_ends data room).ok hnew
  obtain ⟨hsound, hfits⟩ := hm _ _ hs
  rcases (insertData_ends hs).ok hrun with ⟨-, -, rfl⟩ | ⟨hopen, n', recv, hok, -, rfl⟩
  · exact hfits
  · obtain ⟨-, hbytes, hle⟩ := hcases.resolve_left fun h => h.1 hopen
    have hinserts := ((insertSegment_ends hsound).ok hok).1
    have hn : n' = n := Except.ok.inj (hinserts.newBytes.symm.trans hbytes)
    have hbuffered := hinserts.buffered
    show recv.bufferedLen ≤ room
    omega

/-- A frame of stream data that is refused changes nothing. -/
theorem processStreamData_refused (h : c.view.Metered) (packetType : PacketType)
    (data : StreamData) :
    Ends (processStreamData packetType data) c (fun _ _ => True) fun _ c' => c'.view = c.view := by
  have hsound : ∀ (id : Nat) (s : StreamRecord), c.streams.streams[id]? = some s →
      s.recv.Sound ∧ s.recv.bufferedLen ≤ c.config.maxReceiveBuffer := fun id s hs =>
    ⟨(h.streams id s hs).sound, (h.streams id s hs).buffered⟩
  simp only [processStreamData, ends_bind, ends_ensureData, ends_get, ends_onStreams]
  refine ⟨fun _ => ?_, fun _ => trivial⟩
  refine ((Ends.run _ _).and (newDataBytes_ends data _)).mono (fun n m hm => ?_) fun _ m hm => ?_
  · obtain ⟨hnew, rfl, s, hs, _⟩ := hm
    split
    · rfl
    · next total htotal =>
        obtain ⟨_, rfl⟩ := checkedAdd_eq_some.1 htotal
        simp only [ends_bind, ends_ofExcept, ends_onStreams]
        refine ⟨fun _ _ => ?_, fun _ _ => trivial⟩
        refine ((Ends.run _ _).and (insertData_ends hs)).mono (fun status m' hm' => ?_)
          fun e m' hm' => ?_
        · have hfits := insertData_buffered hsound hnew hm'.1
          refine ⟨fun flow _ => ?_, fun e herr => ?_⟩
          · simp only [ends_steps]
            refine ⟨fun hgt => ?_, fun _ => ⟨fun _ => ?_, fun _ => ?_⟩⟩
            · exact absurd hfits (Nat.not_le_of_lt hgt)
            · exact ⟨fun _ => trivial, fun _ => trivial⟩
            · exact ⟨fun _ => trivial, fun _ => trivial⟩
          · unfold ReceiveFlowControl.account at herr
            rw [htotal] at herr
            cases herr
        · obtain ⟨-, -, recv, hrun, rfl⟩ := hm'
          rw [view_put]
          exact h.reject hs hrun
  · rw [hm.2]

/-! ## Over every run -/

/-- What all streams have received, read or not. -/
def Connection.receivedBytes (c : Connection) : Nat :=
  (c.streams.streams.toList.map fun entry =>
    entry.2.recv.nextOffset + (entry.2.recv.segments.toList.map (·.2.length)).sum).sum

theorem receivedBytes_eq (h : c.view.Metered) :
    c.connectionReceive.uniqueReceived = c.receivedBytes := by
  have hids : ∀ id, (c.view.streams id).isSome → id ∈ c.streams.streams.keys.toFinset := by
    intro id hid
    rw [List.mem_toFinset, Std.TreeMap.mem_keys]
    exact Std.TreeMap.mem_iff_isSome_getElem?.2 hid
  exact (h.total _ hids).symm.trans (sum_keys c.streams.streams fun s => s.recv.received)

/-- In every state a connection reaches, the bytes it counts are those of its
streams and within its limit, no stream holds more than its window or the buffer,
stream data that was let in does not overflow the buffer, and stream data that is
refused changes neither the streams nor the count. -/
theorem receive_accounting {role : ConnectionRole} {config : ConnectionConfig}
    (h : Reached suite role config c) :
    c.connectionReceive.uniqueReceived = c.receivedBytes ∧
      c.connectionReceive.uniqueReceived ≤ c.connectionReceive.maxOffset ∧
      (∀ (id : Nat) (s : StreamRecord), c.streams.streams[id]? = some s →
        s.recv.bufferedLen ≤ min config.initialStreamWindow config.maxReceiveBuffer) ∧
      (∀ data n m status m', newDataBytes data c.config.maxReceiveBuffer c.streams = .ok n m →
        insertData data m = .ok status m' → status.buffered ≤ c.config.maxReceiveBuffer) ∧
      ∀ packetType data, Ends (processStreamData packetType data) c (fun _ _ => True)
        fun _ c' => (∀ id : Nat, c'.streams.streams[id]? = c.streams.streams[id]?) ∧
          c'.connectionReceive = c.connectionReceive := by
  have hmetered : c.view.Metered := h.keeps (fun id handshake _ =>
    initial_metered suite role id config handshake) Edit.metered
  have hconfig : ∃ size cookie, c.view.config =
      { config with maxDatagramSize := size, handshakeCookie := cookie } := by
    refine h.keeps (I := fun v => ∃ size cookie, v.config =
      { config with maxDatagramSize := size, handshakeCookie := cookie })
      (fun id handshake _ => ⟨config.maxDatagramSize, config.handshakeCookie, rfl⟩)
      fun e hv => ?_
    obtain ⟨size, cookie, heq, _⟩ := e.configured
    obtain ⟨_, _, hv⟩ := hv
    rw [hv] at heq
    exact ⟨size, cookie, heq⟩
  obtain ⟨_, _, hconfig⟩ := hconfig
  have hwindow : c.view.streamWindow = config.initialStreamWindow := by
    rw [View.streamWindow, hconfig]
  have hbuffer : c.view.config.maxReceiveBuffer = config.maxReceiveBuffer := by rw [hconfig]
  refine ⟨receivedBytes_eq hmetered, hmetered.limit, fun id s hs => ?_,
    fun data n m status m' hnew hrun => ?_, fun packetType data => ?_⟩
  · have hm := hmetered.streams id s hs
    rw [hwindow, hbuffer] at hm
    exact hm.within
  · obtain rfl := ((newDataBytes_ends data _).ok hnew).1
    exact insertData_buffered (fun id s hs => ⟨(hmetered.streams id s hs).sound,
      (hmetered.streams id s hs).buffered⟩) hnew hrun
  · refine (processStreamData_refused hmetered packetType data).mono (fun _ _ h => h)
      fun _ c' h => ⟨fun id => ?_, congrArg View.receive h⟩
    exact congrFun (congrArg View.streams h) id

/-- The one byte that arrives is counted once. -/
theorem receive_accounting_of_byte : ∃ c, Reached sampleSuite .server {} c ∧
    c.connectionReceive.uniqueReceived = c.receivedBytes ∧ c.receivedBytes = 1 := by
  obtain ⟨c, hc, hp⟩ := of_checks (r := sampleConnection .server {})
    (p := fun c => decide ((final sampleSuite c
      (samplePackets.map .onDatagram)).connectionReceive.uniqueReceived = 1))
    (by decide +kernel)
  have hreached := reached_final (sampleConnection_fresh hc) (samplePackets.map .onDatagram)
  have hcount := (receive_accounting hreached).1
  exact ⟨_, hreached, hcount, hcount.symm.trans (of_decide_eq_true hp)⟩

end DartUdp.Core
