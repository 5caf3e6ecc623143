import DartUdp.Proofs.ConnOffsets
import DartUdp.Proofs.ConnReopen

/-!
# The stream limit

The limit is on the streams that are open at the same time, says the protocol.
The connection counts the streams of its table, and no stream ever leaves the
table. So it refuses a stream once as many have been opened in all as may be
open at a time: the limit is spent by the first streams of a run, and the
refusal is right as long as none of these is over.

This is `stream_limit_iff`. The first part of the module says which errors a
flush can end with, round by round, so that a refusal for the limit is known to
come from the check of the table (`openStream_limit`, `processStreamOpen_limit`)
and `limitHit_iff` reads the limit off the state. The second part lists the
streams of a run in the order they were opened (`opened`) and shows that the list
is the table, in another order (`opened_perm`); counting the open ones of the list
instead of those of the table then gives the theorem.
-/

namespace DartUdp.Core

open DartUdp.Lib DartUdp.Udp

variable {suite : Suite} {α β : Type} {c c' : Connection} {id : Nat}

/-! ## Which errors a flush may raise -/

/-- Whatever `m` fails with is one of `P`. -/
abbrev Raises (P : CoreError → Prop) (m : ConnM α) (c : Connection) : Prop :=
  Ends m c (fun _ _ => True) fun e _ => P e

/-- An error of the wheel, of the codec, of a lookup or of a counter. -/
def CoreError.Internal : CoreError → Prop
  | .protocol _ => True
  | .timer _ => True
  | .invalidState _ => True
  | .unknownStream _ => True
  | _ => False

theorem Raises.bind {P : CoreError → Prop} {m : ConnM α} {f : α → ConnM β} (h : Raises P m c)
    (hf : ∀ a c', Raises P (f a) c') : Raises P (m >>= f) c := by
  rw [Raises, ends_bind]
  exact h.mono (fun a c' _ => hf a c') fun _ _ h => h

theorem onTimers_raises {P : CoreError → Prop} {m : TimerM α}
    (h : ∀ t, Ends m t (fun _ _ => True) fun e _ => P e) : Raises P (onTimers m) c := by
  rw [Raises, onTimers, ends_zoom]
  exact h _

theorem schedule_raises (event : TimerEvent) (delay : Nat) (t : TimerState) :
    Ends (schedule event delay) t (fun _ _ => True) fun e _ => e.Internal := by
  unfold schedule onWheel Ends
  dsimp only
  split
  · trivial
  · next h =>
      split at h
      · cases h
      · cases h
        trivial

theorem putBack_raises (f : Frame) (n : Nat) : Raises CoreError.Internal (putBack f n) c := by
  unfold putBack
  split
  · simp only [Raises, ends_onStreams, requeueData, ends_bind, ends_record, ends_modify]
    exact ⟨fun _ _ => trivial, fun _ => trivial⟩
  · trivial

theorem requeueCandidate_raises (candidate : Candidate) :
    Raises CoreError.Internal (requeueCandidate candidate) c := by
  cases candidate with
  | ack a => trivial
  | frame queued => exact putBack_raises _ _

theorem takeCandidate_raises : Raises CoreError.Internal takeCandidate c := by
  simp only [Raises, takeCandidate, takeDataCandidate, ends_steps, ends_ofExcept]
  refine ⟨fun _ => ⟨fun _ _ => trivial, fun _ _ => trivial⟩, fun _ => ?_⟩
  split
  · trivial
  · split
    · trivial
    · trivial

theorem flowBlocks_raises (candidate : Candidate) :
    Raises CoreError.Internal (flowBlocks candidate) c := by
  unfold flowBlocks
  split
  · simp only [Raises, ends_steps]
    exact ⟨fun _ => trivial, fun _ => ⟨fun _ => trivial, fun _ => trivial⟩⟩
  · trivial

theorem settle_raises (n len : Nat) (candidate : Candidate) :
    Raises CoreError.Internal (settle n len candidate) c := by
  unfold settle
  split
  · trivial
  · simp only [Raises, ends_ite, ends_pure]
    refine ⟨fun _ => Raises.bind ?_ fun _ _ => trivial, fun _ => trivial⟩
    unfold recordSent
    split
    · trivial
    · trivial
    · trivial
    · simp only [Raises, ends_bind, ends_modifyTransport, ends_get]
      exact onTimers_raises (schedule_raises _ _)

theorem encodedLen_raises {p : Packet} {e : CoreError} (h : c.encodedLen p = .error e) :
    e.Internal := by
  unfold Connection.encodedLen at h
  split at h
  · cases h
    trivial
  · next bytes _ =>
      generalize hlen : (if c.encrypts p.packetType then bytes.length + aeadTagLen
        else bytes.length) = len at h
      dsimp only at h
      split at h
      · cases h
        trivial
      · cases h

theorem flushOnce_raises : Raises CoreError.Internal flushOnce c := by
  refine takeCandidate_raises.bind fun r c₁ => ?_
  cases r with
  | none => trivial
  | some candidate =>
      simp only [Raises, ends_steps, ends_ofExcept]
      refine ⟨fun len _ => ⟨fun _ => ?_, fun _ => ?_⟩, fun e he => encodedLen_raises he⟩
      · exact (requeueCandidate_raises candidate).mono (fun _ _ _ => trivial) fun _ _ h => h
      · split
        · trivial
        · simp only [ends_bind, ends_modifyTransport]
          refine (flowBlocks_raises candidate).mono (fun blocked c₂ _ => ?_) fun _ _ h => h
          simp only [ends_ite]
          refine ⟨fun _ => ?_, fun _ => ?_⟩
          · exact (requeueCandidate_raises candidate).bind fun _ _ => trivial
          · exact (settle_raises _ _ candidate).bind fun _ _ => trivial

theorem flush_raises : Raises CoreError.Internal flush c := by
  have hloop : ∀ (n : Nat) (c : Connection), Raises CoreError.Internal (flushLoop n) c := by
    intro n
    induction n with
    | zero => exact fun _ => trivial
    | succ n ih =>
        intro c
        refine flushOnce_raises.bind fun b c' => ?_
        simp only [Raises, ends_ite, ends_pure]
        exact ⟨fun _ => ih c', fun _ => trivial⟩
  exact hloop _ _

/-! ## When the limit is hit -/

/-- `open_stream`, or a `StreamOpen` of the peer, fails with `StreamLimit`. -/
def LimitHit (suite : Suite) (c : Connection) : Prop :=
  failure openStream c = some .streamLimit ∨
    ∃ packetType o, failure (processFrame suite packetType (.streamOpen o)) c = some .streamLimit

theorem insertStream_raises (streamId : Nat) (bidirectional : Bool) (window parity receive : Nat)
    (m : StreamManager) :
    Ends (insertStream streamId bidirectional window parity receive) m (fun _ _ => True)
      fun e _ => e = .invalidStreamId streamId := by
  simp only [insertStream, ends_steps]
  exact ⟨fun _ => trivial, fun _ => ⟨fun _ => trivial, fun _ => trivial⟩⟩

theorem openStream_limit :
    Ends openStream c (fun _ _ => True) fun e _ => e = .streamLimit →
      c.state = .established ∧ c.effectiveMaxStreams ≤ c.streams.len := by
  simp only [openStream, ends_steps, ends_ensureEstablished, ends_onStreams, openLocal]
  refine ⟨fun hst => ⟨fun hfull _ => ⟨hst, hfull⟩, fun _ => ?_⟩, fun _ h => by cases h⟩
  split
  · exact fun h => by cases h
  · simp only [ends_steps]
    refine (insertStream_raises _ _ _ _ _ _).mono (fun _ m _ => ?_) fun e m he h => ?_
    · refine (flush_raises).mono (fun _ _ _ => trivial) fun e _ he h => ?_
      rw [h] at he
      exact he.elim
    · rw [he] at h
      cases h

theorem processStreamOpen_limit (packetType : PacketType) (o : StreamOpen) :
    Ends (processStreamOpen packetType o) c (fun _ _ => True) fun e _ => e = .streamLimit →
      c.state = .established ∧ c.effectiveMaxStreams ≤ c.streams.len := by
  simp only [processStreamOpen, ends_steps, ends_ensureData]
  refine ⟨fun hst => ⟨fun _ h => (by cases h), fun _ => ?_⟩, fun _ h => by cases h⟩
  split
  · simp only [ends_ite, ends_throw, ends_pure]
    exact ⟨fun _ h => (by cases h), fun _ => trivial⟩
  · simp only [ends_steps, ends_onStreams]
    refine ⟨fun hfull _ => ⟨hst.2, hfull⟩, fun _ => ?_⟩
    refine (insertStream_raises _ _ _ _ _ _).mono (fun _ _ _ => trivial) fun e _ he h => ?_
    rw [he] at h
    cases h

/-- The limit is hit exactly if the table is full. -/
theorem limitHit_iff (suite : Suite) (c : Connection) :
    LimitHit suite c ↔ c.state = .established ∧ c.effectiveMaxStreams ≤ c.streams.len := by
  constructor
  · rintro (h | ⟨packetType, o, h⟩)
    · obtain ⟨_, hlimit⟩ := Ends.failed openStream_limit h
      exact hlimit rfl
    · obtain ⟨_, hlimit⟩ := Ends.failed (processStreamOpen_limit packetType o) h
      exact hlimit rfl
  · rintro ⟨hst, hfull⟩
    left
    have hrun : openStream c = .error .streamLimit c := by
      have hestablished : ensureEstablished "open stream" c = .ok () c := by
        simp [ensureEstablished, hst, bind_ok (get_run c)]
      unfold openStream
      rw [bind_ok hestablished, bind_ok (get_run c), if_pos hfull]
      rfl
    rw [Lib.failure, hrun]

/-! ## Streams that are over -/

/-- The stream was reset, or it is finished in both directions: what was written
to it to its end is acknowledged, and what the peer sent is read to its end. -/
def Connection.isOver (c : Connection) (id : Nat) (s : StreamRecord) : Bool :=
  match s.state with
  | .reset _ => true
  | _ => s.send.finRequested && (c.waiting id).isEmpty && (c.inFlight id).isEmpty &&
      s.recv.isFinished

/-- How many streams are open. -/
def Connection.openStreams (c : Connection) : Nat :=
  c.streams.streams.toList.countP fun entry => !c.isOver entry.1 entry.2

/-- The stream of the id is in the table and over. -/
def Connection.isOverAt (c : Connection) (id : Nat) : Bool :=
  (c.streams.streams[id]?).any (c.isOver id)

/-! ## Streams in the order they were opened -/

/-- No stream leaves the table. -/
theorem stays_in_table (stages : List Stage) (h : id ∈ c.streams.streams) :
    id ∈ (stages.foldl (Connection.go suite) c).streams.streams := by
  have hknown : ∀ c : Connection, id ∈ c.streams.streams ↔ (c.view.windowOf id).isSome := by
    intro c
    rw [View.windowOf, Option.isSome_map]
    exact Std.TreeMap.mem_iff_isSome_getElem?
  rw [hknown] at h ⊢
  exact run_keeps (I := fun c : Connection => (c.view.windowOf id).isSome) stages h
    fun c stage hc => by
      obtain ⟨window, hwindow⟩ := Option.isSome_iff_exists.1 hc
      obtain ⟨window', hwindow', _⟩ := (go_edits suite c stage).grows hwindow
      rw [hwindow']
      rfl

/-- The streams a run adds to the table, stage by stage. -/
def openedAlong (suite : Suite) (c : Connection) : List Stage → List Nat
  | [] => []
  | stage :: stages =>
      (c.go suite stage).streams.streams.keys.filter (· ∉ c.streams.streams) ++
        openedAlong suite (c.go suite stage) stages

/-- The streams of a run in the order they were opened: those of the table it
starts with, and those it adds. -/
def opened (suite : Suite) (c : Connection) (stages : List Stage) : List Nat :=
  c.streams.streams.keys ++ openedAlong suite c stages

/-- What was there and what one stage adds make up the table after it. -/
theorem keys_go (suite : Suite) (c : Connection) (stage : Stage) :
    (c.streams.streams.keys ++
      (c.go suite stage).streams.streams.keys.filter (· ∉ c.streams.streams)).Perm
        (c.go suite stage).streams.streams.keys := by
  have hnodup : ∀ m : Std.TreeMap Nat StreamRecord, m.keys.Nodup := fun m =>
    Std.TreeMap.nodup_keys
  refine (List.perm_ext_iff_of_nodup ?_ (hnodup _)).2 fun id => ?_
  · refine List.nodup_append.2 ⟨hnodup _, (hnodup _).filter _, fun i hi j hj hij => ?_⟩
    have hnew := (List.mem_filter.1 hj).2
    rw [← hij] at hnew
    exact of_decide_eq_true hnew (Std.TreeMap.mem_keys.1 hi)
  · have hstays : id ∈ c.streams.streams → id ∈ (c.go suite stage).streams.streams :=
      stays_in_table [stage]
    simp only [List.mem_append, List.mem_filter, Std.TreeMap.mem_keys, decide_not,
      Bool.not_eq_true', decide_eq_false_iff_not]
    tauto

/-- The streams a run opened are those of its table. -/
theorem opened_perm (suite : Suite) (c : Connection) (stages : List Stage) :
    (opened suite c stages).Perm
      (stages.foldl (Connection.go suite) c).streams.streams.keys := by
  induction stages generalizing c with
  | nil => exact .of_eq (List.append_nil _)
  | cons stage stages ih =>
      refine List.Perm.trans ?_ (ih (c.go suite stage))
      rw [opened, openedAlong, opened, ← List.append_assoc]
      exact (keys_go suite c stage).append_right _

theorem opened_length (suite : Suite) (c : Connection) (stages : List Stage) :
    (opened suite c stages).length = (stages.foldl (Connection.go suite) c).streams.len := by
  rw [(opened_perm suite c stages).length_eq, Std.TreeMap.length_keys]
  rfl

/-- The open streams, counted in the order they were opened. -/
theorem openStreams_eq (suite : Suite) (c : Connection) (stages : List Stage) :
    (stages.foldl (Connection.go suite) c).openStreams =
      (opened suite c stages).countP
        fun id => !(stages.foldl (Connection.go suite) c).isOverAt id := by
  have hperm := opened_perm suite c stages
  generalize stages.foldl (Connection.go suite) c = c' at hperm ⊢
  rw [hperm.countP_eq, ← Std.TreeMap.map_fst_toList_eq_keys, List.countP_map,
    Connection.openStreams]
  refine List.countP_congr fun entry hentry => ?_
  have hget := Std.TreeMap.mem_toList_iff_getElem?_eq_some.1 hentry
  rw [Function.comp, Connection.isOverAt, hget, Option.any_some]

/-- None of the streams that spend the limit is over. -/
def Connection.FirstLive (c : Connection) (ids : List Nat) : Prop :=
  c.state = .established → c.effectiveMaxStreams ≤ ids.length →
    ∀ id ∈ ids.take c.effectiveMaxStreams, c.isOverAt id = false

/-- **The stream limit.** After any run, a stream is refused for the limit only if
as many are open as may be, if none of the first streams that were opened, up to
the limit, is over; and only then, unless more streams are open than the limit
allows by now. -/
theorem stream_limit_iff (suite : Suite) (c : Connection) (stages : List Stage) :
    ((stages.foldl (Connection.go suite) c).FirstLive (opened suite c stages) →
      LimitHit suite (stages.foldl (Connection.go suite) c) →
        (stages.foldl (Connection.go suite) c).effectiveMaxStreams ≤
          (stages.foldl (Connection.go suite) c).openStreams) ∧
    ((opened suite c stages).length ≤
        (stages.foldl (Connection.go suite) c).effectiveMaxStreams →
      (LimitHit suite (stages.foldl (Connection.go suite) c) →
        (stages.foldl (Connection.go suite) c).effectiveMaxStreams ≤
          (stages.foldl (Connection.go suite) c).openStreams) →
      (stages.foldl (Connection.go suite) c).FirstLive (opened suite c stages)) ∧
    (opened suite c stages).Perm
      (stages.foldl (Connection.go suite) c).streams.streams.keys := by
  have hlen := opened_length suite c stages
  have hopen := openStreams_eq suite c stages
  refine ⟨?_, ?_, opened_perm suite c stages⟩
  · generalize stages.foldl (Connection.go suite) c = c' at hlen hopen ⊢
    rw [limitHit_iff]
    rintro hfirst ⟨hst, hfull⟩
    rw [← hlen] at hfull
    have hlast := hfirst hst hfull
    calc c'.effectiveMaxStreams
        = ((opened suite c stages).take c'.effectiveMaxStreams).length := by
          rw [List.length_take, Nat.min_eq_left hfull]
      _ = ((opened suite c stages).take c'.effectiveMaxStreams).countP
            (fun id => !c'.isOverAt id) := by
          refine (List.countP_eq_length.2 fun id hid => ?_).symm
          rw [hlast id hid]
          rfl
      _ ≤ (opened suite c stages).countP (fun id => !c'.isOverAt id) :=
          (List.take_sublist _ _).countP_le
      _ = c'.openStreams := hopen.symm
  · generalize stages.foldl (Connection.go suite) c = c' at hlen hopen ⊢
    rw [limitHit_iff]
    intro hfew h hst hfull id hid
    -- the table is exactly full, so every stream of it has to be open
    have hall : (opened suite c stages).countP (fun id => !c'.isOverAt id) =
        (opened suite c stages).length := by
      have hle := h ⟨hst, hlen ▸ hfull⟩
      have hcount := List.countP_le_length (p := fun id => !c'.isOverAt id)
        (l := opened suite c stages)
      omega
    have hover := List.countP_eq_length.1 hall id (List.mem_of_mem_take hid)
    simpa using hover

/-- The client resets its only stream and opens the next one. -/
def sampleReopening : List Op :=
  (samplePackets.take 3).map .onDatagram ++
    [.onDatagram ⟨.data, ⟨ackElicitingFlag⟩, 7, 3, [.resetStream ⟨0, 0, 0⟩]⟩]

/-- **A limit on all streams there ever were.** One stream may be open at a time
and none is, but the next one is refused. -/
theorem limit_without_streams : ∃ c, Fresh sampleSuite .server { maxStreams := 1 } c ∧
    (final sampleSuite c sampleReopening).effectiveMaxStreams = 1 ∧
    (final sampleSuite c sampleReopening).openStreams = 0 ∧
    failure (perform sampleSuite
        (.onDatagram ⟨.data, ⟨ackElicitingFlag⟩, 7, 4, [.streamOpen ⟨4, 1024, true⟩]⟩))
      (final sampleSuite c sampleReopening) = some .streamLimit ∧
    failure (perform sampleSuite .openStream) (final sampleSuite c sampleReopening) =
      some .streamLimit := by
  obtain ⟨c, hc, hp⟩ := of_checks (r := sampleConnection .server { maxStreams := 1 })
    (p := fun c => decide (
      (final sampleSuite c sampleReopening).effectiveMaxStreams = 1 ∧
      (final sampleSuite c sampleReopening).openStreams = 0 ∧
      failure (perform sampleSuite
          (.onDatagram ⟨.data, ⟨ackElicitingFlag⟩, 7, 4, [.streamOpen ⟨4, 1024, true⟩]⟩))
        (final sampleSuite c sampleReopening) = some .streamLimit ∧
      failure (perform sampleSuite .openStream) (final sampleSuite c sampleReopening) =
        some .streamLimit)) (by decide +kernel)
  exact ⟨c, sampleConnection_fresh hc, of_decide_eq_true hp⟩

end DartUdp.Core
