import DartUdp.Proofs.ConnDelivery
import DartUdp.Proofs.ConnLimit
import DartUdp.Proofs.ConnLifecycle

/-!
# What an application that waits is told

Whoever found nothing to read on a stream asks again only when an output of the
connection tells it to. So an operation that puts something there to read, or
ends the stream, has to say so, and it does as long as nobody closes the
connection. In the same way a connection does not get established in silence.

`Edit.starved` says which edits put something there, and `Alert` that an output
tells of it. `onDatagramBytes_rouses` and the lemmas for the calls are what the
event loop relies on in `settled_runs`.
-/

namespace DartUdp.Core

open DartUdp.Lib DartUdp.Udp

variable {suite : Suite} {α β : Type} {m : ConnM α} {L : Prop} {k : Cause} {v v' : View}
  {c c' c'' : Connection} {id : Nat} {s s' : StreamRecord} {outs outs' : List CoreOutput}

/-! ## Streams with nothing to read -/

/-- A read gets nothing, and it is not the end. -/
structure StreamRecord.Starved (s : StreamRecord) : Prop where
  live : ∀ e, s.state ≠ .reset e
  empty : s.recv.ready = []
  unfinished : s.recv.isFinished = false

def View.Starved (v : View) (id : Nat) : Prop := ∃ s, v.streams id = some s ∧ s.Starved

/-- Whether a stream is finished does not depend on how far its window goes. -/
theorem isFinished_window (r : ReceiveStream) (maxOffset : Nat) :
    ({ r with maxOffset := maxOffset } : ReceiveStream).isFinished = r.isFinished := rfl

/-- A read leaves a starved stream starved, however much it asks for. -/
theorem StreamRecord.Starved.read (h : s.Starved) (maxLen : Nat) :
    (s.read maxLen).2.Starved := by
  have hrecv : ({ s.recv with ready := s.recv.ready.drop maxLen } : ReceiveStream) = s.recv := by
    rw [h.empty, List.drop_nil, ← h.empty]
  have hfinished : ∀ m, ({ s.recv with
      ready := s.recv.ready.drop maxLen, maxOffset := m } : ReceiveStream).isFinished = false :=
    fun m => by
      rw [isFinished_window { s.recv with ready := s.recv.ready.drop maxLen } m, hrecv]
      exact h.unfinished
  unfold StreamRecord.read ReceiveStream.read
  dsimp only
  refine ⟨?_, ?_, hfinished _⟩
  · rw [hfinished _]
    exact h.live
  · show s.recv.ready.drop maxLen = []
    rw [h.empty, List.drop_nil]

/-- A read that asks for something, gets nothing and is not at the end finds and
leaves the stream starved. -/
theorem starved_of_read {maxLen : Nat} (hlen : 0 < maxLen) (hlive : ∀ e, s.state ≠ .reset e)
    (hdata : (s.read maxLen).1.data = []) (heof : (s.read maxLen).1.eof = false) : s.Starved := by
  have hready : s.recv.ready = [] := by
    have htake : s.recv.ready.take maxLen = [] := hdata
    rcases List.take_eq_nil_iff.1 htake with hzero | hnil
    · omega
    · exact hnil
  refine ⟨hlive, hready, ?_⟩
  have hrecv : ({ s.recv with ready := s.recv.ready.drop maxLen } : ReceiveStream) = s.recv := by
    rw [hready, List.drop_nil, ← hready]
  rw [← hrecv]
  exact heof

theorem View.Starved.keep (h : v.Starved id) (hs : v'.streams = v.streams) : v'.Starved id := by
  obtain ⟨s, hs', hstarved⟩ := h
  exact ⟨s, by rw [hs]; exact hs', hstarved⟩

/-- A record that is written back is starved if the stream was. -/
theorem View.Starved.put {i : Nat} (h : v.Starved id)
    (hs : ∀ s, i = id → v.streams i = some s → s.Starved → s'.Starved) :
    (v.put i s').Starved id := by
  obtain ⟨s, hid, hstarved⟩ := h
  by_cases hi : i = id
  · subst hi
    exact ⟨s', v.put_self i s', hs s rfl hid hstarved⟩
  · exact ⟨s, (View.put_of_ne (Ne.symm hi)).trans hid, hstarved⟩

theorem View.Starved.outward (h : v.Starved id) (ho : v.Outward v') : v'.Starved id := by
  obtain ⟨s, hs, hstarved⟩ := h
  cases hs' : v'.streams id with
  | none => rw [ho.unknown.1 hs'] at hs; cases hs
  | some s' =>
      obtain ⟨s₀, hs₀, hstate, hrecv, -⟩ := ho.known hs'
      cases hs.symm.trans hs₀
      exact ⟨s', hs', hstate ▸ hstarved.live, hrecv ▸ hstarved.empty, hrecv ▸ hstarved.unfinished⟩

/-- A frame that puts nothing on a stream and ends none. -/
def Soft : Frame → Prop
  | .streamData _ => False
  | .resetStream _ => False
  | _ => True

/-- Only data and resets of the other end wake a stream. -/
theorem Edit.starved (e : Edit suite L k v v') (hk : ∀ p, k = .packet p → ∀ f ∈ p.frames, Soft f)
    (h : v.Starved id) : v'.Starved id := by
  cases e with
  | opened i hk' hst hs => exact h.put fun s _ hs' => by rw [hs] at hs'; cases hs'
  | accept p o hk' hf hst hs => exact h.put fun s _ hs' => by rw [hs] at hs'; cases hs'
  | write i data fin s mb mc n send hk' hst hs =>
      exact h.put fun s₀ _ hs₀ hstarved => by
        cases hs.symm.trans hs₀
        exact ⟨hstarved.live, hstarved.empty, hstarved.unfinished⟩
  | read i maxLen s hk' hs =>
      obtain ⟨pending, queued, receive, heq⟩ := v.read_eq i maxLen s
      rw [heq]
      refine View.Starved.keep (v := v.put i (s.read maxLen).2)
        (h.put fun s₀ _ hs₀ hstarved => ?_) rfl
      cases hs.symm.trans hs₀
      exact hstarved.read maxLen
  | insert p d s newBytes n recv hk' hf => exact (hk p hk' _ hf).elim
  | reject p d s e recv hl hk' hf => exact (hk p hk' _ hf).elim
  | finish i s hs hfin =>
      exact h.put fun s₀ _ hs₀ hstarved => by
        cases hs.symm.trans hs₀
        rw [hstarved.unfinished] at hfin
        cases hfin
  | limit p u s hk' hf hs =>
      exact h.put fun s₀ _ hs₀ hstarved => by
        cases hs.symm.trans hs₀
        exact ⟨hstarved.live, hstarved.empty, hstarved.unfinished⟩
  | reset p r s hk' hf => exact (hk p hk' _ hf).elim
  | lose n count sp =>
      exact View.Starved.outward (v := v.forget n) (h.keep rfl) (View.outward_putBackAll _ _ _)
  | drop n count m sp =>
      exact View.Starved.outward (v := v.forget n) (h.keep rfl) (View.outward_putBackAll _ _ _)
  | emit q v₁ sp ht =>
      obtain ⟨_, heq⟩ := v₁.account_eq q
      rw [heq]
      exact (h.outward ht.outward).keep rfl
  | pass q v₁ ht =>
      obtain ⟨_, heq⟩ := v₁.account_eq q
      rw [heq]
      exact (h.outward ht.outward).keep rfl
  | lost q v₁ next hl ht => exact (h.outward ht.outward).keep rfl
  | back q v₁ ht => exact h.outward (ht.outward.trans (v₁.outward_putBack _ _))
  | _ => exact h.keep rfl

theorem Edits.starved (e : Edits suite L k v v')
    (hk : ∀ p, k = .packet p → ∀ f ∈ p.frames, Soft f) (h : v.Starved id) : v'.Starved id := by
  induction e with
  | refl => exact h
  | tail _ e ih => exact e.starved hk ih

/-! ## What comes out -/

/-- Nobody has begun to close the connection. -/
def ConnectionState.Opened (s : ConnectionState) : Prop :=
  s.rank < ConnectionState.closing.rank

/-- The output is about what can be read from the stream. -/
def CoreOutput.Wakes (id : Nat) : CoreOutput → Prop
  | .streamReadable streamId => streamId = id
  | .streamFinished streamId => streamId = id
  | .streamReset streamId _ => streamId = id
  | _ => False

/-- Outputs came on top of those there were, a connection that was closing still
is, and getting established was one of them. -/
structure Walks (c : Connection) (outs : List CoreOutput) (c' : Connection) : Prop where
  output : c'.output = c.output ++ outs
  opened : c'.state.Opened → c.state.Opened
  established : c'.state = .established →
    c.state = .established ∨ .connectionStateChanged .established ∈ outs

/-- And so was what woke a stream of an open connection. -/
structure Alerts (c : Connection) (outs : List CoreOutput) (c' : Connection) : Prop
    extends Walks c outs c' where
  starved : c'.state.Opened → ∀ id, c.view.Starved id →
    c'.view.Starved id ∨ ∃ out ∈ outs, out.Wakes id

def Walk (c c' : Connection) : Prop := ∃ outs, Walks c outs c'

def Alert (c c' : Connection) : Prop := ∃ outs, Alerts c outs c'

theorem Walks.trans (h : Walks c outs c') (h' : Walks c' outs' c'') :
    Walks c (outs ++ outs') c'' where
  output := by rw [h'.output, h.output, List.append_assoc]
  opened hopen := h.opened (h'.opened hopen)
  established hst := by
    rcases h'.established hst with hst | hmem
    · exact (h.established hst).imp_right (List.mem_append_left _)
    · exact .inr (List.mem_append_right _ hmem)

theorem Alerts.trans (h : Alerts c outs c') (h' : Alerts c' outs' c'') :
    Alerts c (outs ++ outs') c'' where
  toWalks := h.toWalks.trans h'.toWalks
  starved hopen id hstarved := by
    rcases h.starved (h'.opened hopen) id hstarved with hstarved | ⟨out, hout, hwakes⟩
    · rcases h'.starved hopen id hstarved with hstarved | ⟨out, hout, hwakes⟩
      · exact .inl hstarved
      · exact .inr ⟨out, List.mem_append_right _ hout, hwakes⟩
    · exact .inr ⟨out, List.mem_append_left _ hout, hwakes⟩

theorem Walks.refl (c : Connection) : Walks c [] c := ⟨(List.append_nil _).symm, id, .inl⟩

theorem Alerts.refl (c : Connection) : Alerts c [] c := ⟨.refl c, fun _ _ h => .inl h⟩

instance : IsPreorder Connection Walk where
  refl c := ⟨[], .refl c⟩
  trans _ _ _ := fun ⟨_, h⟩ ⟨_, h'⟩ => ⟨_, h.trans h'⟩

instance : IsPreorder Connection Alert where
  refl c := ⟨[], .refl c⟩
  trans _ _ _ := fun ⟨_, h⟩ ⟨_, h'⟩ => ⟨_, h.trans h'⟩

theorem Rise.established {F : Prop} {st st' : ConnectionState} (h : Rise F st outs st')
    (hst : st' = .established) :
    st = .established ∨ .connectionStateChanged .established ∈ outs := by
  induction outs generalizing st with
  | nil => exact .inl (h.symm.trans hst)
  | cons out rest ih =>
      rcases ih h.2 with hnext | hmem
      · cases out with
        | connectionStateChanged st₁ =>
            cases (hnext : st₁ = .established)
            exact .inr List.mem_cons_self
        | _ => exact .inl hnext
      · exact .inr (List.mem_cons_of_mem _ hmem)

/-- The way up is such a way. -/
theorem Rises.walk {F : Prop} (h : Rises F c c') : Walk c c' := by
  obtain ⟨outs, hout, hrise⟩ := h.outputs
  exact ⟨outs, hout, fun hopen => hrise.rank_le.trans_lt hopen, hrise.established⟩

/-- Operations that bring nothing in from the other end wake no stream. -/
theorem Walk.alert (h : Walk c c') (he : Edits suite L k c.view c'.view)
    (hk : ∀ p, k = .packet p → ∀ f ∈ p.frames, Soft f) : Alert c c' := by
  obtain ⟨outs, hwalks⟩ := h
  exact ⟨outs, hwalks, fun _ _ hstarved => .inl (he.starved hk hstarved)⟩

variable (suite) in
theorem alert_of {F : Prop} (hm : Within (Rises F) m c) (hd : Does suite k m c)
    (hk : ∀ p, k = .packet p → ∀ f ∈ p.frames, Soft f) : Within Alert m c :=
  (Ends.and hm hd).mono (fun _ _ h => h.1.walk.alert h.2 hk) fun _ _ h => h.1.walk.alert h.2 hk

/-- The streams, the state and the outputs are as before. -/
theorem Alert.same (hout : c'.output = c.output) (hstate : c'.state = c.state)
    (hstreams : c'.streams = c.streams) : Alert c c' := by
  refine ⟨[], ⟨by rw [hout, List.append_nil], fun h => hstate ▸ h, fun h => .inl (hstate ▸ h)⟩,
    fun _ id h => .inl (h.keep ?_)⟩
  show (fun id => c'.streams.streams[id]?) = fun id => c.streams.streams[id]?
  rw [hstreams]

/-! ## Timers and calls -/

/-- Giving up on a packet begins to close the connection, a closed one as well. -/
theorem closeOnLimit_walks (hm : Within Walk m c) :
    Within Walk (closeOnLimit m) c := by
  simp only [closeOnLimit, Within, ends_tryCatch]
  refine Ends.mono hm (fun _ _ h => h) fun e c₁ h => ?_
  simp only [ends_steps]
  refine ⟨fun _ => IsTrans.trans _ _ _ h ?_, fun _ => h⟩
  show Walk c₁ ({ c₁ with closeError := some 3 }.setState .closing)
  unfold Connection.setState
  split
  · exact ⟨[.connectionStateChanged .closing], rfl, fun h => absurd h (Nat.lt_irrefl _),
      fun h => by cases h⟩
  · exact ⟨[], (List.append_nil _).symm, id, .inl⟩

theorem processTimer_walks (event : TimerEvent) : Within Walk (processTimer event) c := by
  by_cases hevent : ∃ n g, event = .retransmit n g
  · obtain ⟨n, g, rfl⟩ := hevent
    exact closeOnLimit_walks ((processRetransmit_rises (F := True) n g).mono fun _ => Rises.walk)
  · have hgrows : Within (Grows True 0) (processTimer event) c :=
      processTimer_grows (fun n g heq => hevent ⟨n, g, heq⟩) (Nat.zero_le _) fun _ => trivial
    exact hgrows.mono fun _ h => h.toRises.walk

theorem processTimers_walks (events : List TimerEvent) :
    Within Walk (processTimers events) c := by
  induction events generalizing c with
  | nil => exact .pure _
  | cons event rest ih =>
      exact .modify_bind ⟨[], (List.append_nil _).symm, id, .inl⟩
        ((processTimer_walks event).bind fun _ _ => ih)

theorem onTimers_alerts (m : TimerM α) : Within Alert (onTimers m) c :=
  ends_zoom.2 (.of_forall (fun _ _ => .same rfl rfl rfl) fun _ _ => .same rfl rfl rfl)

theorem advanceTime_alerts (suite : Suite) (elapsed : Nat) :
    Within Alert (advanceTime elapsed) c := by
  have hwalk : Within Walk (advanceTime elapsed) c := by
    simp only [advanceTime, Within, ends_steps, onTimers, ends_zoom]
    have hlater : ∀ t, Walk c { c with now := c.now + elapsed, timers := t } := fun _ =>
      ⟨[], (List.append_nil _).symm, id, .inl⟩
    refine ⟨fun _ => Std.Refl.refl c, fun _ => .of_forall (fun events t => ?_) fun _ t => hlater t⟩
    exact ends_bind.1 (Within.trans (hlater t) ((processTimers_walks events).bind fun _ _ =>
      (flush_rises (F := True)).mono fun _ => Rises.walk))
  have hother : ∀ p : Packet, Cause.other = .packet p → ∀ f ∈ p.frames, Soft f :=
    fun p h => by cases h
  exact (Ends.and hwalk (@advanceTime_does suite .other _ _)).mono
    (fun _ _ h => h.1.alert h.2 hother) fun _ _ h => h.1.alert h.2 hother

theorem openStream_alerts (suite : Suite) : Within Alert openStream c :=
  alert_of suite (F := True) openStream_rises openStream_does nofun

theorem writeStream_alerts (suite : Suite) (streamId : Nat) (data : Bytes) (fin : Bool) :
    Within Alert (writeStream streamId data fin) c :=
  alert_of suite (F := True) (writeStream_rises streamId data fin)
    (writeStream_does streamId data fin) nofun

theorem readStream_alerts (suite : Suite) (streamId maxLen : Nat) :
    Within Alert (readStream streamId maxLen) c :=
  alert_of suite (F := True) (readStream_rises streamId maxLen)
    (readStream_does streamId maxLen) nofun

theorem close_alerts (suite : Suite) (errorCode : Nat) (reason : Bytes) :
    Within Alert (close errorCode reason) c :=
  alert_of suite (F := True) (k := .other) (close_rises errorCode reason)
    (close_does errorCode reason) nofun

theorem flush_alerts (suite : Suite) : Within Alert flush c :=
  alert_of suite (F := True) (k := .other) flush_rises flush_does nofun

theorem Alert.closing (h : Alert c c') (hc : ¬ c.state.Opened) : ¬ c'.state.Opened := by
  obtain ⟨_, halerts⟩ := h
  exact fun hopen => hc (halerts.opened hopen)

/-- After a close the connection is closing, however the close ended. -/
theorem close_closes (suite : Suite) (errorCode : Nat) (reason : Bytes) :
    Ends (close errorCode reason) c (fun _ c' => ¬ c'.state.Opened)
      fun _ c' => ¬ c'.state.Opened := by
  simp only [close]
  rw [ends_bind, ends_get, ends_ite]
  refine ⟨fun hclosed => ?_, fun _ => ?_⟩
  · rw [ends_pure, hclosed]
    exact Nat.not_lt.2 (Nat.le_succ _)
  · rw [ends_bind, ends_modify, ends_bind, ends_get]
    have hclosing : ¬ (({ c with closeError := some errorCode }.setState .closing).queue
        (.connectionClose ⟨errorCode, 0, reason⟩)).state.Opened := by
      show ¬ (Connection.setState _ _).state.Opened
      rw [Connection.setState_state]
      exact Nat.lt_irrefl _
    have hrest : ∀ (m : TimerM Unit) (c₁ : Connection), Within Alert (do
        onTimers m
        flush) c₁ := fun _ _ => (onTimers_alerts _).bind fun _ _ => flush_alerts suite
    exact Ends.mono (hrest _ _) (fun _ _ h => h.closing hclosing) fun _ _ h => h.closing hclosing

/-! ## Datagrams -/

/-- An error with which stream data is refused. -/
def CoreError.RefusesData : CoreError → Prop
  | .invalidOffset => True
  | .flowControlViolation _ => True
  | .receiveBufferFull => True
  | _ => False

/-- A call after which the streams that were woken are told of, unless it refused data. -/
abbrev Rouses (m : ConnM α) (c : Connection) : Prop :=
  Ends m c (fun _ c' => Alert c c') fun e c' => e.RefusesData ∨ Alert c c'

theorem Rouses.of (h : Within Alert m c) : Rouses m c :=
  Ends.mono h (fun _ _ h => h) fun _ _ h => .inr h

theorem Rouses.bind {f : α → ConnM β} (hm : Rouses m c) (hf : ∀ a c', Rouses (f a) c') :
    Rouses (m >>= f) c := by
  rw [Rouses, ends_bind]
  refine hm.mono (fun a c₁ h₁ => (hf a c₁).mono (fun _ _ h => IsTrans.trans _ _ _ h₁ h)
    fun _ _ h => h.imp_right (IsTrans.trans _ _ _ h₁)) fun _ _ h => h

theorem insertRanges_refuses {offset : Nat} {data : Bytes} (ranges : List (Nat × Nat))
    (r : ReceiveStream) : Ends (insertRanges offset data ranges) r (fun _ _ => True)
      fun e _ => e.RefusesData := by
  induction ranges generalizing r with
  | nil => trivial
  | cons range rest ih =>
      simp only [insertRanges, ends_steps]
      exact ⟨fun _ => trivial, fun _ => ih _⟩

theorem deliverLoop_refuses (fuel : Nat) (r : ReceiveStream) :
    Ends (deliverLoop fuel) r (fun _ _ => True) fun e _ => e.RefusesData := by
  induction fuel generalizing r with
  | zero => trivial
  | succ fuel ih =>
      simp only [deliverLoop, ends_bind, ends_get]
      split
      · trivial
      · rw [ends_bind, ends_modify]
        split
        · trivial
        · rw [ends_bind, ends_modify]
          exact ih _

theorem insertSegment_refuses (offset : Nat) (data : Bytes) (fin : Bool) (r : ReceiveStream) :
    Ends (insertSegment offset data fin) r (fun _ _ => True) fun e _ => e.RefusesData := by
  simp only [insertSegment, ends_bind, ends_get]
  split
  · trivial
  · simp only [ends_steps, ends_ofExcept]
    refine ⟨fun _ => trivial, fun _ => ⟨fun finalOffset _ => ?_, fun e he => ?_⟩⟩
    · refine (insertRanges_refuses _ _).mono (fun _ r₁ _ => ?_) fun _ _ h => h
      simp only [deliverContiguous, ends_bind, ends_get]
      exact (deliverLoop_refuses _ _).mono (fun _ _ _ => trivial) fun _ _ h => h
    · unfold ReceiveStream.checkFinal at he
      split at he
      · cases he
      · split at he
        · split at he
          · cases he
            trivial
          · cases he
        · split at he
          · cases he
            trivial
          · cases he

theorem finish_starved (h : c.view.Starved id) {streamId : Nat} (hne : id ≠ streamId) :
    ({ c with streams := c.streams.finish streamId } : Connection).view.Starved id := by
  unfold StreamManager.finish
  split
  · rw [view_put]
    exact h.put fun _ heq => absurd heq.symm hne
  · exact h

/-- What follows the insertion of stream data tells of a stream that is no longer
starved. -/
theorem reportData_rouses {c₁ : Connection} (d : StreamData) (room : Nat) (r : ReceiveStream)
    (hout : c₁.output = c.output) (hstate : c₁.state = c.state)
    (hothers : ∀ id, id ≠ d.streamId → c.view.Starved id → c₁.view.Starved id)
    (hown : r.ready = [] → r.isFinished = false → c.view.Starved d.streamId →
      c₁.view.Starved d.streamId) :
    Ends (do
      if r.bufferedLen > room then throw .receiveBufferFull
      if r.readable then modify (·.emit (.streamReadable d.streamId))
      if r.isFinished && !r.readable then
        modify fun c => { c with streams := c.streams.finish d.streamId }
        modify (·.emit (.streamFinished d.streamId)) : ConnM Unit) c₁
      (fun _ c' => Alert c c') fun e c' => e.RefusesData ∨ Alert c c' := by
  have hnews : ∀ out : CoreOutput, c₁.output ++ [out] = c.output ++ [out] := fun out => by rw [hout]
  simp only [ends_steps]
  refine ⟨fun _ => .inl trivial, fun _ => ⟨fun hread => ⟨fun h => ?_, fun _ => ?_⟩,
    fun hread => ⟨fun h => ?_, fun h => ?_⟩⟩⟩
  · simp [hread] at h
  · refine ⟨[.streamReadable d.streamId], ⟨hnews _, fun h => hstate ▸ h,
      fun h => .inl (hstate ▸ h)⟩, fun _ id hstarved => ?_⟩
    by_cases hid : id = d.streamId
    · exact .inr ⟨_, List.mem_singleton_self _, hid.symm⟩
    · exact .inl ((hothers id hid hstarved).keep rfl)
  · refine ⟨[.streamFinished d.streamId], ⟨hnews _, fun h => hstate ▸ h,
      fun h => .inl (hstate ▸ h)⟩, fun _ id hstarved => ?_⟩
    by_cases hid : id = d.streamId
    · exact .inr ⟨_, List.mem_singleton_self _, hid.symm⟩
    · exact .inl ((finish_starved (hothers id hid hstarved) hid).keep rfl)
  · refine ⟨[], ⟨by rw [hout, List.append_nil], fun h => hstate ▸ h, fun h => .inl (hstate ▸ h)⟩,
      fun _ id hstarved => .inl ?_⟩
    by_cases hid : id = d.streamId
    · subst hid
      have hready : r.ready = [] := by simpa [ReceiveStream.readable] using hread
      have hunfinished : r.isFinished = false := by simpa [hread] using h
      exact hown hready hunfinished hstarved
    · exact hothers id hid hstarved

theorem processStreamData_rouses (packetType : PacketType) (d : StreamData) :
    Rouses (processStreamData packetType d) c := by
  have hsame : Alert c c := Std.Refl.refl c
  simp only [Rouses, processStreamData, ends_bind, ends_ensureData, ends_get, ends_onStreams]
  refine ⟨fun hst => ?_, fun _ => .inr hsame⟩
  refine (newDataBytes_ends d _).mono (fun n m h => ?_) fun _ m h => .inr ?_
  · obtain ⟨rfl, s, hs, hnew⟩ := h
    split
    · exact .inl trivial
    · next total htotal =>
        simp only [ends_bind, ends_ofExcept, ends_onStreams]
        refine ⟨fun _ hcheck => ?_, fun _ _ => .inr hsame⟩
        refine (insertData_ends hs).mono (fun status m' h => ⟨fun flow hflow => ?_,
          fun e herr => ?_⟩) fun e m' h => .inl ?_
        · rw [ends_modify]
          rcases h with ⟨hclosed, rfl, rfl⟩ | ⟨hopen, n', recv, hrun, rfl, rfl⟩
          · simp only [Bool.false_and, ends_steps]
            exact ⟨fun _ => .inl trivial, fun _ => ⟨fun h => absurd h Bool.false_ne_true, fun _ =>
              ⟨fun h => absurd h Bool.false_ne_true, fun _ => .same rfl rfl rfl⟩⟩⟩
          · have hview : ({ c with
                streams := c.streams.put d.streamId { s with recv := recv }
                connectionReceive := flow } : Connection).view =
                  { c.view.put d.streamId { s with recv := recv } with receive := flow } := by
              rw [← view_put]
              rfl
            refine reportData_rouses d _ recv rfl rfl (fun id hid hstarved => ?_)
              fun hready hunfinished hstarved => ?_
            · rw [hview]
              exact (hstarved.put fun _ heq => absurd heq.symm hid).keep rfl
            · rw [hview]
              refine View.Starved.keep (v := c.view.put d.streamId { s with recv := recv })
                (hstarved.put fun s₀ _ hs₀ hstarved₀ => ?_) rfl
              cases hs.symm.trans hs₀
              exact ⟨hstarved₀.live, hready, hunfinished⟩
        · unfold ReceiveFlowControl.account at herr
          rw [htotal] at herr
          cases herr
        · obtain ⟨hopen, recv, hrun, rfl⟩ := h
          have hrefuses := insertSegment_refuses d.offset d.data d.fin s.recv
          unfold Ends at hrefuses
          rw [hrun] at hrefuses
          exact hrefuses
  · rw [h]
    exact hsame

theorem processResetStream_rouses (packetType : PacketType) (reset : ResetStream) :
    Rouses (processResetStream packetType reset) c := by
  have hsame : Alert c c := Std.Refl.refl c
  simp only [Rouses, processResetStream, ends_bind, ends_ensureData, ends_onStreams, resetRecord,
    ends_record, ends_modify]
  refine ⟨fun _ => ⟨fun s hs => ?_, fun _ => .inr hsame⟩, fun _ => .inr hsame⟩
  refine ⟨[.streamReset reset.streamId reset.errorCode], ⟨rfl, id, .inl⟩, fun _ i hstarved => ?_⟩
  by_cases hi : i = reset.streamId
  · exact .inr ⟨_, List.mem_singleton_self _, hi.symm⟩
  · rw [view_emit rfl, view_put]
    exact .inl (hstarved.put fun _ heq => absurd heq.symm hi)

theorem processFrame_rouses (suite : Suite) (packetType : PacketType) (f : Frame) :
    Rouses (processFrame suite packetType f) c := by
  have hsoft : Soft f → Rouses (processFrame suite packetType f) c := fun hsoft =>
    .of (alert_of suite (F := True) (k := .packet ⟨packetType, .empty, 0, 0, [f]⟩)
      (processFrame_rises packetType f fun _ => trivial)
      (processFrame_does suite (p := ⟨packetType, .empty, 0, 0, [f]⟩) List.mem_cons_self)
      fun p hp f' hf' => by
        cases hp
        cases List.mem_singleton.1 hf'
        exact hsoft)
  cases f with
  | streamData d => exact processStreamData_rouses packetType d
  | resetStream r => exact processResetStream_rouses packetType r
  | _ => exact hsoft trivial

theorem processFrames_rouses (suite : Suite) (packetType : PacketType) (frames : List Frame) :
    Rouses (processFrames suite packetType frames) c := by
  induction frames generalizing c with
  | nil => exact .of (.pure _)
  | cons f rest ih =>
      exact ends_ite.2 ⟨fun _ => (processFrame_rouses suite packetType f).bind fun _ _ => ih,
        fun _ => ih⟩

theorem applyAcks_alerts (suite : Suite) (frames : List Frame) :
    Within Alert (applyAcks frames) c := by
  induction frames generalizing c with
  | nil => exact .pure _
  | cons f rest ih =>
      cases f with
      | ack a =>
          have hack : Within Alert (closeOnLimit (applyAck a)) c := by
            have hdoes : Does suite (.packet ⟨.data, .empty, 0, 0, [.ack a]⟩)
                (closeOnLimit (applyAck a)) c :=
              closeOnLimit_does (applyAck_does List.mem_cons_self)
            refine (Ends.and (closeOnLimit_walks ((applyAck_rises (F := True) a).mono fun _ =>
              Rises.walk)) hdoes).mono (fun _ _ h => h.1.alert h.2 ?_) fun _ _ h => h.1.alert h.2 ?_
            all_goals
              intro p hp f hf
              cases hp
              cases List.mem_singleton.1 hf
              trivial
          exact hack.bind fun _ _ => ih
      | _ => exact ih

theorem recordReceived_alerts (p : Packet) : Within Alert (recordReceived p) c :=
  .ite (fun _ => .pure _) fun _ => .get_bind ((Within.modify (.same rfl rfl rfl)).bind
    fun _ _ => .pure _)

theorem acknowledge_alerts (suite : Suite) (p : Packet) :
    Within Alert (do
      if p.frames.any Frame.isAckEliciting then scheduleAck
      flush) c := by
  refine alert_of suite (F := True) (k := .other) ?_ (acknowledge_does p) nofun
  exact .ite (fun _ => scheduleAck_rises.bind fun _ _ => flush_rises) fun _ => flush_rises

theorem onDatagram_rouses (suite : Suite) (p : Packet) : Rouses (onDatagram suite p) c := by
  have hrest : ∀ c', Rouses (do
      if p.frames.any Frame.isAckEliciting then scheduleAck
      flush) c' := fun _ => .of (acknowledge_alerts suite p)
  simp only [onDatagram]
  rw [Rouses, ends_bind, ends_get, ends_ite]
  refine ⟨fun _ => .inr (Std.Refl.refl c), fun _ => ends_ite.2 ⟨fun _ => .inr (Std.Refl.refl c),
    fun _ => ?_⟩⟩
  refine (Rouses.of (onTimers_alerts _)).bind fun _ _ =>
    (Rouses.of (recordReceived_alerts p)).bind fun isNew _ =>
      (Rouses.of (applyAcks_alerts suite p.frames)).bind fun _ c₁ =>
        ends_ite.2 ⟨fun _ => ?_, fun _ => ?_⟩
  · exact (processFrames_rouses suite p.packetType p.frames).bind fun _ c₂ => hrest c₂
  · exact hrest c₁

theorem decodeDatagram_alerts (suite : Suite) (bytes : Bytes) :
    Within Alert (decodeDatagram suite bytes) c := by
  refine .get_bind ((Within.ofExcept _ _).bind fun flags _ => .ite (fun _ => ?_)
    fun _ => .ofExcept _ _)
  split
  · exact .throw _
  · exact .modify_bind (.same rfl rfl rfl) (.ofExcept _ _)

/-- A datagram wakes the streams it brings something for, unless it is refused for
its data. -/
theorem onDatagramBytes_rouses (suite : Suite) (bytes : Bytes) :
    Rouses (onDatagramBytes suite bytes) c :=
  (Rouses.of (decodeDatagram_alerts suite bytes)).bind fun p _ => onDatagram_rouses suite p

/-! ## What a flush puts out -/

def CoreOutput.isSend : CoreOutput → Bool
  | .send _ => true
  | _ => false

/-- Nothing but packets came out. -/
def Sends (c c' : Connection) : Prop :=
  ∃ outs : List CoreOutput, c'.output = c.output ++ outs ∧ outs.all CoreOutput.isSend = true

instance : IsPreorder Connection Sends where
  refl _ := ⟨[], (List.append_nil _).symm, rfl⟩
  trans _ _ _ := fun ⟨outs, hout, hall⟩ ⟨outs', hout', hall'⟩ =>
    ⟨outs ++ outs', by rw [hout', hout, List.append_assoc], by
      rw [List.all_append, hall, hall']
      rfl⟩

theorem Sends.same (h : c'.output = c.output) : Sends c c' := ⟨[], by rw [h, List.append_nil], rfl⟩

theorem sends_of_still (h : Within Still m c) : Within Sends m c :=
  h.mono fun _ h => .same h.output

theorem onTimers_sends (m : TimerM α) : Within Sends (onTimers m) c :=
  ends_zoom.2 (.of_forall (fun _ _ => .same rfl) fun _ _ => .same rfl)

theorem recordSent_sends (n len : Nat) (queued : QueuedFrame) :
    Within Sends (recordSent n len queued) c := by
  unfold recordSent
  split
  · exact .pure _
  · exact .pure _
  · exact .pure _
  · exact .modify_bind (.same rfl) (.get_bind ((onTimers_sends _).bind fun _ _ =>
      Within.modify (.same rfl)))

theorem settle_sends (n len : Nat) (candidate : Candidate) :
    Within Sends (settle n len candidate) c := by
  cases candidate with
  | ack a => exact Sends.same rfl
  | frame queued =>
      exact .ite (fun _ => (recordSent_sends n len queued).bind fun _ _ =>
        Within.modify (.same rfl)) fun _ => .pure _

theorem flushOnce_sends : Within Sends flushOnce c := by
  refine Within.bind (sends_of_still takeCandidate_still) fun r c₁ => ?_
  cases r with
  | none => exact .pure _
  | some candidate =>
      refine .get_bind (.ofExcept_bind fun len _ => .ite (fun _ => ?_) fun _ => ?_)
      · exact (sends_of_still (requeueCandidate_still candidate)).bind fun _ _ => .pure _
      · split
        · exact .throw _
        · refine .modify_bind (.same rfl) ((sends_of_still (flowBlocks_still candidate)).bind
            fun blocked c₂ => .ite (fun _ => ?_) fun _ => ?_)
          · exact (sends_of_still (requeueCandidate_still candidate)).bind fun _ _ =>
              .modify_bind (.same rfl) (.pure _)
          · exact .modify_bind ⟨[.send _], rfl, rfl⟩ ((settle_sends _ _ candidate).bind
              fun _ _ => .pure _)

theorem flush_sends : Within Sends flush c := by
  have hloop : ∀ (fuel : Nat) (c : Connection), Within Sends (flushLoop fuel) c := by
    intro fuel
    induction fuel with
    | zero => exact fun _ => .pure _
    | succ fuel ih =>
        exact fun _ => flushOnce_sends.bind fun _ c' => .ite (fun _ => ih c') fun _ => .pure _
  exact hloop _ _

/-! ## Reads and writes -/

/-- A write that does not get in leaves the core as it is, and one that does puts
out packets. -/
theorem writeStream_full (streamId : Nat) (data : Bytes) (fin : Bool) :
    Ends (writeStream streamId data fin) c (fun _ _ => True)
      fun e c' => e = .sendBufferFull → c' = c := by
  simp only [writeStream, writeRecord, ends_steps, ends_ensureEstablished, ends_onStreams,
    ends_record, ends_ofExcept]
  refine ⟨fun _ => ⟨fun s hs => ⟨fun _ => (fun h => by cases h), fun _ => ⟨fun r hr => ?_,
    fun _ _ _ => trivial⟩⟩, fun _ _ => trivial⟩, fun _ _ => trivial⟩
  refine flush_raises.mono (fun _ _ h => h) fun e _ hinternal hfull => ?_
  rw [hfull] at hinternal
  exact hinternal.elim

/-- A read that does not end the stream puts out packets only. -/
theorem readStream_sends (streamId maxLen : Nat) :
    Ends (readStream streamId maxLen) c (fun result c' => result.eof = false → Sends c c')
      fun _ _ => True := by
  have hend : ∀ (data : Bytes) (eof : Bool) (c₁ : Connection), Sends c c₁ → Ends (do
      if eof then modify (·.emit (.streamFinished streamId))
      flush
      return (⟨data, eof⟩ : ReadResult)) c₁ (fun result c' => result.eof = false → Sends c c')
      fun _ _ => True := by
    intro data eof c₁ h₁
    simp only [ends_steps]
    refine ⟨fun heof => ?_, fun _ => ?_⟩
    · exact .of_forall (fun _ _ h => absurd (heof.symm.trans h) fun h => by cases h)
        fun _ _ => trivial
    · exact Ends.mono flush_sends (fun _ _ h _ => IsTrans.trans _ _ _ h₁ h) fun _ _ _ => trivial
  have hconsumed : ∀ (data : Bytes) (eof : Bool) (c₁ : Connection), Sends c c₁ → Ends (do
      if !data.isEmpty then
        modify fun c => { c with connectionReceive := (c.connectionReceive.consume data.length).2 }
      if eof then modify (·.emit (.streamFinished streamId))
      flush
      return (⟨data, eof⟩ : ReadResult)) c₁ (fun result c' => result.eof = false → Sends c c')
      fun _ _ => True := by
    intro data eof c₁ h₁
    rw [ends_ite]
    exact ⟨fun _ => ends_bind.2 (hend data eof _ (IsTrans.trans _ _ _ h₁ (.same rfl))),
      fun _ => hend data eof _ h₁⟩
  rw [readStream, ends_bind]
  refine Ends.mono (onStreams_still _) (fun result c₁ h₁ => ?_) fun _ _ _ => trivial
  obtain ⟨data, eof, windowUpdate⟩ := result
  cases windowUpdate with
  | none => exact hconsumed data eof _ (.same h₁.output)
  | some maxOffset =>
      exact ends_bind.2 (hconsumed data eof _ (IsTrans.trans _ _ _ (.same h₁.output) (.same rfl)))

/-- A read that gets nothing, and not the end of the stream either, puts out
packets only and finds nothing for the next one. -/
theorem readStream_nothing (suite : Suite) (streamId maxLen : Nat) :
    Ends (readStream streamId maxLen) c
      (fun result c' => result.data = [] → result.eof = false →
        Sends c c' ∧ (0 < maxLen → c'.view.Starved streamId))
      fun _ _ => True := by
  refine ((readStream_sends streamId maxLen).and (readStream_ends suite streamId maxLen)).mono
    (fun result c' h hdata heof => ?_) fun _ _ _ => trivial
  refine ⟨h.1 heof, fun hlen => ?_⟩
  obtain ⟨s, hs, hlive, rfl, hedits⟩ := h.2
  have hstarved : s.Starved := starved_of_read hlen hlive hdata heof
  refine hedits.starved nofun ?_
  obtain ⟨pending, queued, receive, heq⟩ := c.view.read_eq streamId maxLen s
  rw [heq]
  exact ⟨_, View.put_self .., hstarved.read maxLen⟩

end DartUdp.Core
