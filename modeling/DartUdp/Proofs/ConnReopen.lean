import DartUdp.Proofs.ConnStages

/-!
# A StreamOpen that comes again

A frame that opens a stream the peer has opened already is taken for a repetition
when its window is the stream's send window. But that window is raised by every
`MaxStreamData` since. So a repeated StreamOpen does no harm as long as nothing
raised the window, and is refused, as if it had other parameters, afterwards.

The module is for `reopen_iff`. `processStreamOpen_again` compares the window told
with the send window, and `Edit.grows` says that the latter only grows. So it is the
same at the end of a run exactly if no stage has raised it (`RaisesNothing`).
-/

namespace DartUdp.Core

open DartUdp.Lib DartUdp.Udp

variable {suite : Suite} {L : Prop} {k : Cause} {c c₁ c₂ : Connection} {v v' : View}
  {id window : Nat} {o : StreamOpen} {s s' : StreamRecord}

/-! ## The send window of a stream -/

/-- The limit the peer has set on what may be sent on a stream. -/
def View.windowOf (v : View) (id : Nat) : Option Nat := (v.streams id).map (·.send.maxOffset)

theorem windowOf_put {i : Nat} (hs : v.streams i = some s)
    (h : s'.send.maxOffset = s.send.maxOffset) : (v.put i s').windowOf id = v.windowOf id := by
  unfold View.windowOf
  by_cases hi : id = i
  · rw [hi, View.put_self, hs, Option.map_some, Option.map_some, h]
  · rw [View.put_of_ne hi]

theorem write_maxOffset {send send' : SendStream} {data : Bytes} {fin : Bool}
    {maxBuffer maxChunk n : Nat} (h : send.write data fin maxBuffer maxChunk = .ok (n, send')) :
    send'.maxOffset = send.maxOffset := by
  unfold SendStream.write at h
  repeat' split at h
  all_goals cases h
  all_goals rfl

theorem popSendable_maxOffset {send send' : SendStream} {item : PendingData}
    (h : send.popSendable = some (item, send')) : send'.maxOffset = send.maxOffset := by
  unfold SendStream.popSendable at h
  split at h
  · cases h
  · cases h
    rfl

theorem windowOf_putBack (v : View) (frame : Frame) (n : Nat) :
    (v.putBack frame n).windowOf id = v.windowOf id := by
  unfold View.putBack
  split
  · split
    · next s hs => exact windowOf_put hs rfl
    · rfl
  · rfl

theorem windowOf_putBackAll (v : View) (n : Nat) (frames : List QueuedFrame) :
    (v.putBackAll n frames).windowOf id = v.windowOf id := by
  induction frames generalizing v with
  | nil => rfl
  | cons queued rest ih => exact (ih _).trans (windowOf_putBack v queued.frame n)

theorem Takes.windowOf {q : QueuedFrame} (h : Takes v q v') : v'.windowOf id = v.windowOf id := by
  cases h with
  | pending rest h => rfl
  | stream i s item send hs hpop => exact windowOf_put hs (popSendable_maxOffset hpop)

/-- The stream is still there, and its window is the one it was unless a
`MaxStreamData` that came in had a limit above it. -/
def View.Grows (k : Cause) (id window : Nat) (v' : View) : Prop :=
  ∃ window', v'.windowOf id = some window' ∧
    ((∀ p, k = .packet p → ∀ u, .maxStreamData u ∈ p.frames → u.streamId = id →
      u.maxOffset ≤ window) → window' = window)

theorem Edit.grows (e : Edit suite L k v v') (hid : v.windowOf id = some window) :
    v'.Grows k id window := by
  have hsame : ∀ {v₁ : View}, v₁.windowOf id = v.windowOf id → v₁.Grows k id window := fun heq =>
    ⟨window, heq.trans hid, fun _ => rfl⟩
  have hnew : ∀ {i s}, v.streams i = none → (v.put i s).Grows k id window := by
    intro i s hnone
    have hne : id ≠ i := fun heq => by
      rw [← heq] at hnone
      unfold View.windowOf at hid
      rw [hnone] at hid
      cases hid
    refine hsame ?_
    unfold View.windowOf
    rw [View.put_of_ne hne]
  have hkeep : ∀ {i s s'}, v.streams i = some s → s'.send.maxOffset = s.send.maxOffset →
      (v.put i s').Grows k id window := fun hs h => hsame (windowOf_put hs h)
  cases e with
  | opened i hk hst hs => exact hnew hs
  | accept p o hk hf hst hs => exact hnew hs
  | write i data fin s mb mc n send hk hst hs hopen hw =>
      exact hkeep hs (write_maxOffset hw)
  | read i maxLen s hk hs =>
      obtain ⟨_, _, _, heq⟩ := v.read_eq i maxLen s
      rw [heq]
      show (v.put i (s.read maxLen).2).Grows k id window
      exact hkeep hs rfl
  | insert p d s newBytes n recv hk hf hst hs =>
      show (v.put d.streamId { s with recv := recv }).Grows k id window
      exact hkeep hs rfl
  | reject p d s e recv hl hk hf hs => exact hkeep hs rfl
  | finish i s hs hfin => exact hkeep hs rfl
  | limit p u s hk hf hs =>
      by_cases hu : u.streamId = id
      · have hmax : s.send.maxOffset = window := by
          unfold View.windowOf at hid
          rw [← hu, hs] at hid
          exact Option.some.inj hid
        refine ⟨max s.send.maxOffset u.maxOffset, ?_, fun hlimits => ?_⟩
        · rw [View.windowOf, ← hu, View.put_self]
          rfl
        · have hle := hlimits p hk u hf hu
          omega
      · refine hsame ?_
        unfold View.windowOf
        rw [View.put_of_ne (Ne.symm hu)]
  | reset p r s hk hf hs => exact hkeep hs rfl
  | lose n count sp => exact hsame (windowOf_putBackAll _ _ _)
  | drop n count m sp => exact hsame (windowOf_putBackAll _ _ _)
  | emit q v₁ sp ht =>
      obtain ⟨sent, hsent⟩ := v₁.account_eq q
      rw [hsent]
      exact hsame ht.windowOf
  | pass q v₁ ht =>
      obtain ⟨sent, hsent⟩ := v₁.account_eq q
      rw [hsent]
      exact hsame ht.windowOf
  | lost q v₁ next hl ht => exact hsame ht.windowOf
  | back q v₁ ht => exact hsame ((windowOf_putBack v₁ _ _).trans ht.windowOf)
  | _ => exact hsame rfl

theorem Edits.grows (e : Edits suite L k v v') (hid : v.windowOf id = some window) :
    v'.Grows k id window := by
  induction e with
  | refl => exact ⟨window, hid, fun _ => rfl⟩
  | tail _ e ih =>
      obtain ⟨window', hid', hsame⟩ := ih
      obtain ⟨window'', hid'', hsame'⟩ := e.grows hid'
      refine ⟨window'', hid'', fun hlimits => ?_⟩
      obtain rfl := hsame hlimits
      exact hsame' hlimits

/-! ## Opening again -/

/-- No frame the stage brings raises the window of the stream above the one it was
opened with. -/
def RaisesNothing (suite : Suite) (o : StreamOpen) (c : Connection) (stage : Stage) : Prop :=
  ∀ p, stage.cause suite c = .packet p → ∀ u, .maxStreamData u ∈ p.frames →
    u.streamId = o.streamId → u.maxOffset ≤ o.initialReceiveWindow

/-- A stream that was opened has the window it was opened with. -/
theorem processStreamOpen_ok (h : processStreamOpen .data o c₁ = .ok () c₂) :
    o.streamId % 2 = c₂.role.peerStreamParity ∧
      c₂.view.windowOf o.streamId = some o.initialReceiveWindow := by
  have hends : Ends (processStreamOpen .data o) c₁ (fun _ c =>
      o.streamId % 2 = c.role.peerStreamParity ∧
        c.view.windowOf o.streamId = some o.initialReceiveWindow) fun _ _ => True := by
    simp only [processStreamOpen, ends_steps, ends_ensureData]
    refine ⟨fun _ => ⟨fun _ => trivial, fun hparity => ?_⟩, fun _ => trivial⟩
    split
    · next existing hwindow =>
        simp only [ends_ite, ends_throw, ends_pure]
        refine ⟨fun _ => trivial, fun heq => ⟨not_not.1 hparity, ?_⟩⟩
        rw [← not_not.1 heq]
        exact hwindow
    · next hnone =>
        have hs : c₁.streams.streams.contains o.streamId = false := by
          rw [Std.TreeMap.contains_eq_isSome_getElem?]
          rw [StreamManager.sendWindow, Option.map_eq_none_iff] at hnone
          rw [hnone]
          rfl
        simp only [ends_steps, ends_onStreams, insertStream, hs]
        refine ⟨fun _ => trivial, fun _ =>
          ⟨fun h => (by cases h), fun _ => ⟨fun _ => trivial, fun _ => ?_⟩⟩⟩
        refine ⟨not_not.1 hparity, ?_⟩
        rw [view_emit rfl, view_put, View.windowOf, View.put_self]
        rfl
  exact hends.ok h

/-- The frame does nothing a second time exactly when the window is the one it
carries. -/
theorem processStreamOpen_again (hstate : c.state = .established)
    (hparity : o.streamId % 2 = c.role.peerStreamParity)
    (hknown : (c.view.windowOf o.streamId).isSome) :
    processStreamOpen .data o c = .ok () c ↔
      c.view.windowOf o.streamId = some o.initialReceiveWindow := by
  obtain ⟨window, hwindow⟩ := Option.isSome_iff_exists.1 hknown
  have hsend : c.streams.sendWindow o.streamId = some window := hwindow
  have hends : Ends (processStreamOpen .data o) c
      (fun _ c' => c' = c ∧ window = o.initialReceiveWindow)
      fun _ _ => window ≠ o.initialReceiveWindow := by
    simp only [processStreamOpen, ends_steps, ends_ensureData, hsend]
    refine ⟨fun _ => ⟨fun h => absurd hparity h, fun _ => ⟨fun h => h, fun h => ?_⟩⟩, fun h => ?_⟩
    · exact ⟨trivial, not_not.1 h⟩
    · exact absurd ⟨trivial, hstate⟩ h
  constructor
  · intro h
    exact hwindow.trans (congrArg some (hends.ok h).2)
  · intro h
    have heq : window = o.initialReceiveWindow := Option.some.inj (hwindow.symm.trans h)
    cases hrun : processStreamOpen .data o c with
    | ok a c' => rw [(hends.ok hrun).1]
    | error e c' => exact absurd heq (hends.error hrun)

/-- After a frame has opened a stream, and whatever has happened since, the same
frame is accepted and changes nothing exactly when the send window of the stream
is still the one in the frame; and so it is in every run in which no
`MaxStreamData` has a limit above it. -/
theorem reopen_iff (hopened : processStreamOpen .data o c₁ = .ok () c₂) (stages : List Stage)
    (hstate : (stages.foldl (Connection.go suite) c₂).state = .established) :
    (processFrames suite .data [.streamOpen o] (stages.foldl (Connection.go suite) c₂) =
        .ok () (stages.foldl (Connection.go suite) c₂) ↔
      (stages.foldl (Connection.go suite) c₂).streams.sendWindow o.streamId =
        some o.initialReceiveWindow) ∧
    (Meets (Connection.go suite) (RaisesNothing suite o) c₂ stages →
      processFrames suite .data [.streamOpen o] (stages.foldl (Connection.go suite) c₂) =
        .ok () (stages.foldl (Connection.go suite) c₂)) := by
  obtain ⟨hparity, hwindow⟩ := processStreamOpen_ok hopened
  have hprocess : ∀ c, processFrames suite .data [.streamOpen o] c = .ok () c ↔
      processStreamOpen .data o c = .ok () c := by
    intro c
    have hone : processFrames suite .data [.streamOpen o] c =
        (processStreamOpen .data o >>= fun _ => pure ()) c := rfl
    rw [hone]
    show EStateM.bind (processStreamOpen .data o) _ c = _ ↔ _
    unfold EStateM.bind
    cases processStreamOpen .data o c with
    | ok _ c' => exact Iff.rfl
    | error e c' => exact iff_of_false nofun nofun
  have hkept : ∀ stages : List Stage,
      o.streamId % 2 = (stages.foldl (Connection.go suite) c₂).role.peerStreamParity ∧
        ((stages.foldl (Connection.go suite) c₂).view.windowOf o.streamId).isSome := fun stages =>
    run_keeps (I := fun c : Connection => o.streamId % 2 = c.role.peerStreamParity ∧
      (c.view.windowOf o.streamId).isSome) stages ⟨hparity, by rw [hwindow]; rfl⟩
      fun c stage hc => by
        obtain ⟨window, hid⟩ := Option.isSome_iff_exists.1 hc.2
        have hedits := go_edits suite c stage
        obtain ⟨window', hid', _⟩ := hedits.grows hid
        have hrole : (c.go suite stage).role = c.role := hedits.constant.1
        exact ⟨by rw [hrole]; exact hc.1, by rw [hid']; rfl⟩
  obtain ⟨hparity, hknown⟩ := hkept stages
  have hiff := processStreamOpen_again hstate hparity hknown
  refine ⟨(hprocess _).trans hiff, fun hmeets => (hprocess _).2 (hiff.2 ?_)⟩
  exact hmeets.run
    (I := fun c : Connection => c.view.windowOf o.streamId = some o.initialReceiveWindow) hwindow
    fun c stage hc hraises => by
      obtain ⟨window', hid', hsame⟩ := (go_edits suite c stage).grows hc
      rw [hid', hsame hraises]

/-- The `StreamOpen` of the sample packets. -/
def sampleOpen : StreamOpen := ⟨0, 1024 * 1024, true⟩

/-- The server where the sample `StreamOpen` is processed. -/
def atOpen (c : Connection) : Connection :=
  after (reachFrame sampleSuite ⟨.data, ⟨ackElicitingFlag⟩, 7, 2, [.streamOpen sampleOpen]⟩ 0)
    (final sampleSuite c ((samplePackets.take 2).map .onDatagram))

/-- A repeated StreamOpen after the byte that follows it is harmless. -/
theorem reopen_after_data : ∃ c c₂, Fresh sampleSuite .server {} c ∧
    processStreamOpen .data sampleOpen (atOpen c) = .ok () c₂ ∧
    processFrames sampleSuite .data [.streamOpen sampleOpen]
        (c₂.go sampleSuite (.frame .data (.streamData ⟨0, 0, true, [97]⟩))) =
      .ok () (c₂.go sampleSuite (.frame .data (.streamData ⟨0, 0, true, [97]⟩))) := by
  obtain ⟨c, hc, hp⟩ := of_checks (r := sampleConnection .server {})
    (p := fun c => (answer (processStreamOpen .data sampleOpen) (atOpen c)).isSome &&
      ((after (processStreamOpen .data sampleOpen) (atOpen c)).go sampleSuite
        (.frame .data (.streamData ⟨0, 0, true, [97]⟩))).state == .established)
    (by decide +kernel)
  rw [Bool.and_eq_true, beq_iff_eq] at hp
  obtain ⟨hopened, hstate⟩ := hp
  cases hrun : processStreamOpen .data sampleOpen (atOpen c) with
  | error e c₂ =>
      unfold answer at hopened
      rw [hrun] at hopened
      cases hopened
  | ok _ c₂ =>
      unfold after at hstate
      rw [hrun] at hstate
      refine ⟨c, c₂, sampleConnection_fresh hc, hrun, ?_⟩
      refine (reopen_iff hrun [.frame .data (.streamData ⟨0, 0, true, [97]⟩)] hstate).2
        ⟨fun p hp u hu _ => ?_, trivial⟩
      cases hp
      cases List.mem_singleton.1 hu

/-- The client grants one byte more, then its StreamOpen comes again under a new
number: the server refuses it. -/
theorem reopen_is_refused : ∃ c, Fresh sampleSuite .server {} c ∧
    failure (perform sampleSuite
        (.onDatagram ⟨.data, ⟨ackElicitingFlag⟩, 7, 4, [.streamOpen sampleOpen]⟩))
      (final sampleSuite c (((samplePackets.take 3).map .onDatagram) ++
        [.onDatagram ⟨.data, ⟨ackElicitingFlag⟩, 7, 3,
          [.maxStreamData ⟨0, 1024 * 1024 + 1⟩]⟩])) =
      some (.invalidState "stream was opened with different parameters") := by
  obtain ⟨c, hc, hp⟩ := of_checks (r := sampleConnection .server {})
    (p := fun c => decide (failure (perform sampleSuite
        (.onDatagram ⟨.data, ⟨ackElicitingFlag⟩, 7, 4, [.streamOpen sampleOpen]⟩))
      (final sampleSuite c (((samplePackets.take 3).map .onDatagram) ++
        [.onDatagram ⟨.data, ⟨ackElicitingFlag⟩, 7, 3,
          [.maxStreamData ⟨0, 1024 * 1024 + 1⟩]⟩])) =
      some (.invalidState "stream was opened with different parameters")))
    (by decide +kernel)
  exact ⟨c, sampleConnection_fresh hc, of_decide_eq_true hp⟩

end DartUdp.Core
