import DartUdp.Proofs.ConnLedger
import DartUdp.Proofs.ConnOffsets

/-!
# Loss recovery over runs

The books of loss recovery are right from the constructor on and after every
operation that answers, so they are over a run. They are those of the module
before: `final_ledger` carries them through a run, `fresh_ledger` starts them with
the constructor, and `Ledger.inStep` reads off them what a caller can check.

The counter of the bytes in flight saturates, so that it is right needs a bound.
With a congestion window below the largest 64-bit number the window is the bound.
With the largest window nothing stops the sender, and the bound is the memory: a
packet that is not acknowledged is kept with the frames it carries, so what is
kept at any time amounts to less than 2^64 bytes. `loads` has the amount after
every packet that went out, also of those that go out in the middle of an
operation, and the theorem takes the bound on these as a hypothesis.
-/

namespace DartUdp.Core

open DartUdp.Lib DartUdp.Udp

variable {suite : Suite} {c : Connection} {config : ConnectionConfig}

/-! ## Runs -/

theorem perform_posts (op : Op) : Posts config [] (perform suite op) c := by
  cases op with
  | onDatagram p =>
      exact fun h => ends_bind.2 ((onDatagram_posts p h).mono (fun _ _ h' => h')
        fun _ _ _ => trivial)
  | onDatagramBytes bytes =>
      exact fun h => ends_bind.2 ((onDatagramBytes_posts bytes h).mono (fun _ _ h' => h')
        fun _ _ _ => trivial)
  | advanceTime elapsed =>
      exact fun h => ends_bind.2 ((advanceTime_posts elapsed h).mono (fun _ _ h' => h')
        fun _ _ _ => trivial)
  | openStream => exact fun h => ends_map.2 (openStream_posts h)
  | writeStream id data fin => exact fun h => ends_map.2 (writeStream_posts id data fin h)
  | readStream id maxLen => exact fun h => ends_map.2 (readStream_posts id maxLen h)
  | close errorCode reason =>
      exact fun h => ends_bind.2 ((close_posts errorCode reason h).mono (fun _ _ h' => h')
        fun _ _ _ => trivial)
  | drainOutput => exact fun h => ends_map.2 (h.keep rfl)

/-- The books are right after a run whose operations all answer. -/
theorem final_ledger {ops : List Op} (h : Ledger config [] c)
    (hok : succeeds suite c ops = true) : Ledger config [] (final suite c ops) := by
  induction ops generalizing c with
  | nil => exact h
  | cons op rest ih =>
      rw [succeeds, Bool.and_eq_true] at hok
      obtain ⟨a, ha⟩ := Option.isSome_iff_exists.1 hok.1
      exact ih ((perform_posts op h).answer ha) hok.2

/-! ## The start -/

theorem wheelConfig_build {built : TimeWheel.WheelConfig} (h : config.wheelConfig = .ok built) :
    ∃ builder : TimeWheel.WheelConfigBuilder, builder.build = .ok built := by
  unfold ConnectionConfig.wheelConfig at h
  dsimp only at h
  split at h
  · next hbuild =>
      cases h
      exact ⟨_, hbuild⟩
  · cases h

/-- New timers: none is pending. -/
theorem new_live {timers : TimerState} (h : ∃ order, TimerState.new config order = .ok timers) :
    timers.Sound ∧ timers.slots = List.replicate 5 none ∧ ∀ id, timers.live id = none := by
  obtain ⟨order, h⟩ := h
  unfold TimerState.new at h
  split at h
  · next built hbuilt =>
      cases h
      obtain ⟨builder, hbuild⟩ := wheelConfig_build hbuilt
      have hshows := TimeWheel.shows_new (T := TimerEvent) order hbuild
      exact ⟨⟨_, _, hshows⟩, rfl, fun id =>
        live_eq_timers (t := { wheel := TimeWheel.Wheel.new built order }) hshows id⟩
  · cases h

theorem new_timed {timers : TimerState} {next : Nat}
    (h : ∃ order, TimerState.new config order = .ok timers) :
    Timed (fun _ => none) next [] timers := by
  obtain ⟨hsound, hslots, hlive⟩ := new_live h
  refine ⟨hsound, fun id hid => ?_, nofun, fun id n g hg => ?_, nofun⟩
  · rw [hslots] at hid
    cases List.eq_of_mem_replicate hid
  · rw [hlive] at hg
    cases hg

theorem unstarted_ledger {role : ConnectionRole} {id : Nat} {handshake : HandshakeState}
    {timers : TimerState} (hvalid : config.validate = .ok ())
    (hrange : config.maxCongestionWindow ≤ u64Max)
    (htimers : ∃ order, TimerState.new config order = .ok timers) :
    Ledger config [] (.unstarted role id config handshake timers) := by
  obtain ⟨_, hmin, hmax⟩ := validate_limits hvalid
  have hcwnd : (TransportState.new config).congestion.cwnd = config.initialCongestionWindow := by
    show min (max config.initialCongestionWindow config.minCongestionWindow)
      config.maxCongestionWindow = _
    omega
  have hbytes : (TransportState.new config).sentBytes = 0 := rfl
  refine ⟨⟨rfl, rfl, hmin.trans hmax, hrange, ?_, ?_, ?_, ?_, Nat.zero_le _, .inl hbytes.symm,
    nofun⟩, fun _ => ?_⟩
  · exact hcwnd ▸ hmin
  · exact hcwnd ▸ hmax
  · intro n p hp
    cases hp.symm.trans Std.TreeMap.getElem?_emptyc
  · intro n p hp
    cases hp.symm.trans Std.TreeMap.getElem?_emptyc
  · have hentry : (TransportState.new config).entry = fun _ => none := by
      funext n
      exact Std.TreeMap.getElem?_emptyc
    show Timed (TransportState.new config).entry _ _ _
    rw [hentry]
    exact new_timed htimers

theorem startClient_posts : Posts config [] (startClient suite) c := by
  intro h
  simp only [startClient, ends_steps, ends_modifyHandshake]
  exact scheduleHandshake_posts _ (h.keep rfl)

theorem start_posts (startHandshake : Bool) : Posts config [] (start suite startHandshake) c := by
  intro h
  simp only [start, ends_bind, ends_get]
  refine (Posts.onTimers (fun _ ht => ht.scheduleIdle _) h).mono (fun _ c₁ h₁ => ?_)
    fun _ _ _ => trivial
  have hshake : ∀ c₂, Posts config [] (do
      if startHandshake then
        startClient suite
        flush) c₂ := fun c₂ =>
    Posts.ite (startClient_posts.bind fun _ _ => flush_posts) fun h₂ => h₂
  split
  · exact (Posts.onTimers (fun _ ht => ht.scheduleKeepalive _)).bind (fun _ c₂ => hshake c₂) h₁
  · exact hshake c₁ h₁

theorem fresh_ledger {role : ConnectionRole} (h : Fresh suite role config c)
    (hrange : config.maxCongestionWindow ≤ u64Max) : Ledger config [] c := by
  obtain ⟨hvalid, id, handshake, timers, _, htimers, hrun⟩ := fresh_starts h
  exact (start_posts _ (unstarted_ledger hvalid hrange htimers)).ok hrun

/-! ## Over a run -/

/-- The window, the counter and the timers are in step with the packets that are
not acknowledged. -/
structure Connection.InStep (c : Connection) : Prop where
  flight : c.transport.congestion.bytesInFlight = c.transport.sentBytes
  window : c.transport.congestion.minCwnd ≤ c.transport.congestion.cwnd ∧
    c.transport.congestion.cwnd ≤ c.transport.congestion.maxCwnd
  loads : ∀ load ∈ c.transport.loads, load.flight ≤ load.cwnd
  timers : ∀ (n : Nat) (p : SentPacket), c.transport.sent[n]? = some p → p.packetNumber = n ∧
    ∃! id, c.timers.live id = some (.retransmit n p.generation)
  owners : ∀ id n g, c.timers.live id = some (.retransmit n g) →
    ∃ p, c.transport.sent[n]? = some p ∧ p.timerId = id ∧ p.generation = g

theorem Ledger.inStep (h : Ledger config [] c) (hopen : c.state ≠ .closed)
    (hmemory : u64Max ≤ config.maxCongestionWindow →
      ∀ load ∈ c.transport.loads, load.held ≤ u64Max) : c.InStep := by
  have htimed := h.timed hopen
  have howners : ∀ id n g, c.timers.live id = some (.retransmit n g) →
      ∃ p, c.transport.sent[n]? = some p ∧ p.timerId = id ∧ p.generation = g :=
    fun id n g hlive => (htimed.owners id n g hlive).1
  refine ⟨?_, ⟨?_, ?_⟩, h.balanced.loads, fun n p hp => ?_, howners⟩
  · refine h.balanced.exact.resolve_right fun ⟨hwide, load, hmem, hover⟩ => ?_
    exact Nat.not_le_of_lt hover (hmemory hwide load hmem)
  · rw [h.balanced.floor]
    exact h.balanced.lower
  · rw [h.balanced.ceiling]
    exact h.balanced.upper
  · have hlive := (htimed.packets n p hp).2.resolve_right List.not_mem_nil
    refine ⟨h.balanced.numbers n p hp, p.timerId, hlive, fun id hid => ?_⟩
    obtain ⟨q, hq, hqid, _⟩ := howners id n p.generation hid
    rw [hp, Option.some_inj] at hq
    rw [hq, hqid]

/-- **Loss recovery stays in step.** Over every run whose operations answer and
that does not end closed, the counter of the bytes in flight is what the packets
that are not acknowledged amount to, the window is kept and kept to, every such
packet has its one timer and no other packet has one. `hmemory` says, of the
widest window only, that the packets kept at any time of the run amount to less
than 2^64 bytes: they are in memory. -/
theorem loss_recovery_in_step (suite : Suite) (role : ConnectionRole) (config : ConnectionConfig)
    (c : Connection) (ops : List Op) (hfresh : Fresh suite role config c)
    (hrange : config.maxCongestionWindow ≤ u64Max) (hok : succeeds suite c ops = true)
    (hopen : (final suite c ops).state ≠ .closed)
    (hmemory : u64Max ≤ config.maxCongestionWindow →
      ∀ load ∈ (final suite c ops).transport.loads, load.held ≤ u64Max) :
    (final suite c ops).InStep :=
  (final_ledger (fresh_ledger hfresh hrange) hok).inStep hopen hmemory

/-- The widest window there is. -/
def wideConfig : ConnectionConfig where
  initialCongestionWindow := u64Max
  maxCongestionWindow := u64Max

theorem loss_recovery_in_step_sample : ∃ c, Fresh sampleSuite .client wideConfig c ∧
    (final sampleSuite c sampleSending).transport.loads.length ≠ 0 ∧
    (final sampleSuite c sampleSending).InStep := by
  obtain ⟨c, hc, hrun⟩ := of_checks (r := sampleConnection .client wideConfig)
    (p := fun c => succeeds sampleSuite c sampleSending &&
      decide ((final sampleSuite c sampleSending).state ≠ .closed ∧
        (final sampleSuite c sampleSending).transport.loads.length ≠ 0 ∧
        ∀ load ∈ (final sampleSuite c sampleSending).transport.loads, load.held ≤ u64Max))
    (by decide +kernel)
  obtain ⟨hok, hrest⟩ := Bool.and_eq_true_iff.1 hrun
  obtain ⟨hopen, hsome, hmemory⟩ := of_decide_eq_true hrest
  have hfresh := sampleConnection_fresh hc
  exact ⟨c, hfresh, hsome, loss_recovery_in_step sampleSuite .client wideConfig c sampleSending
    hfresh (Nat.le_refl _) hok hopen fun _ => hmemory⟩

end DartUdp.Core
