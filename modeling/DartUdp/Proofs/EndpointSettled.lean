import DartUdp.Proofs.EndpointReplies
import DartUdp.Proofs.EndpointRounds

/-!
# Nobody waits for what is there

After every turn of the loop each connection is settled: its outputs are worked
off, a read waits on a stream with nothing to read, a write for room there is not,
a flush for packets that are not acknowledged, an `accept` for a stream that has
not come and a `connect` for a handshake that is not over. A waiter that was missed
would not be looked at again before the connection stirs by itself.

What carries this through a turn is what a connection owes: whoever waits for
something that is there will be told by an output that is still to be worked off.

The module is for `settled_runs`. `Runtime.Owes` is the invariant within a turn, and
`processOutputs_settles` makes it `Runtime.Settled`; `handleCommand_settles` and
`handleDatagram_settles` are the two kinds of events.
-/

namespace DartUdp.Endpoint

open Std (TreeMap)
open DartUdp.Lib DartUdp.Udp DartUdp.Core

variable {suite : Suite}
  {hmac : (secret : Vector UInt8 32) → (message : Bytes) → Vector UInt8 32}
  {world : World} {id : Nat} {s s' : EventLoop} {r r' : Runtime}

/-- Everyone who waits on the connection has to. A read of no bytes is not
considered, and a connection that is closing answers its reads when it is closed. -/
structure Runtime.Settled (r : Runtime) : Prop where
  output : r.core.output = []
  opened : r.core.state ≠ .closed
  connect : r.connectWaiter.isSome → r.core.state ≠ .established
  accept : r.pendingAccepts = [] ∨ r.incomingStreams = []
  reads : r.core.state.Opened → ∀ (streamId : Nat) p, r.pendingReads[streamId]? = some p →
    0 < p.maxLen → r.core.view.Starved streamId
  writes : ∀ (streamId : Nat) p, r.pendingWrites[streamId]? = some p → Blocked r.core streamId p
  flushes : r.pendingFlushes ≠ [] → r.core.isReliablyFlushed = false

/-- Whoever waits for something that is there is told by one of the outputs to come. -/
structure Runtime.Owes (outs : List CoreOutput) (r : Runtime) : Prop where
  connect : r.connectWaiter.isSome → r.core.state = .established →
    .connectionStateChanged .established ∈ outs ++ r.core.output
  accept : r.pendingAccepts = [] ∨ r.incomingStreams = []
  reads : r.core.state.Opened → ∀ (streamId : Nat) p, r.pendingReads[streamId]? = some p →
    0 < p.maxLen → r.core.view.Starved streamId ∨ ∃ out ∈ outs ++ r.core.output, out.Wakes streamId

variable {outs : List CoreOutput} {out : CoreOutput}

theorem Runtime.Settled.owes (h : r.Settled) : r.Owes [] where
  connect hwaits hst := absurd hst (h.connect hwaits)
  accept := h.accept
  reads hopen streamId p hp hlen := .inl (h.reads hopen streamId p hp hlen)

/-- A call on the core tells of what it changes. -/
theorem Runtime.Owes.call {c : Connection} (h : r.Owes outs) (halert : Alert r.core c) :
    Runtime.Owes outs { r with core := c } := by
  obtain ⟨more, halert⟩ := halert
  have hmem : ∀ {out : CoreOutput}, out ∈ outs ++ r.core.output → out ∈ outs ++ c.output :=
    fun {out} hout => by
      rw [halert.output, ← List.append_assoc]
      exact List.mem_append_left _ hout
  have hmore : ∀ {out : CoreOutput}, out ∈ more → out ∈ outs ++ c.output := fun {out} hout => by
    rw [halert.output]
    exact List.mem_append_right _ (List.mem_append_right _ hout)
  refine ⟨fun hwaits hst => ?_, h.accept, fun hopen streamId p hp hlen => ?_⟩
  · rcases halert.established hst with hst | hout
    · exact hmem (h.connect hwaits hst)
    · exact hmore hout
  · rcases h.reads (halert.opened hopen) streamId p hp hlen with hstarved | ⟨out, hout, hwakes⟩
    · rcases halert.starved hopen streamId hstarved with hstarved | ⟨out, hout, hwakes⟩
      · exact .inl hstarved
      · exact .inr ⟨out, hmore hout, hwakes⟩
    · exact .inr ⟨out, hmem hout, hwakes⟩

theorem Runtime.Owes.taken (h : r.Owes []) : r.taken.Owes r.core.output where
  connect hwaits hst := List.mem_append_left _ (h.connect hwaits hst)
  accept := h.accept
  reads hopen streamId p hp hlen := by
    refine (h.reads hopen streamId p hp hlen).imp (fun hstarved => hstarved) ?_
    rintro ⟨out, hout, hwakes⟩
    exact ⟨out, List.mem_append_left _ hout, hwakes⟩

/-- What is told of an output is told by then: only those it is about are looked at. -/
theorem Runtime.Owes.dealt (h : r.Owes (out :: outs)) (hcore : r'.core = r.core)
    (hconnect : r'.connectWaiter.isSome →
      r.connectWaiter.isSome ∧ out ≠ .connectionStateChanged .established)
    (haccept : r'.pendingAccepts = [] ∨ r'.incomingStreams = [])
    (hreads : ∀ (streamId : Nat) p, r'.pendingReads[streamId]? = some p →
      r.pendingReads[streamId]? = some p ∧ ¬ out.Wakes streamId) : r'.Owes outs := by
  refine ⟨fun hwaits hst => ?_, haccept, fun hopen streamId p hp hlen => ?_⟩
  · obtain ⟨hwaited, hother⟩ := hconnect hwaits
    rw [hcore] at hst ⊢
    exact (List.mem_cons.1 (h.connect hwaited hst)).resolve_left (Ne.symm hother)
  · obtain ⟨hwaited, hother⟩ := hreads streamId p hp
    rw [hcore] at hopen ⊢
    refine (h.reads hopen streamId p hwaited hlen).imp_right ?_
    rintro ⟨out', hout', hwakes⟩
    rcases List.mem_cons.1 hout' with rfl | hmem
    · exact absurd hwakes hother
    · exact ⟨out', hmem, hwakes⟩

/-- An output that tells nobody anything. -/
theorem Runtime.Owes.skip (h : r.Owes (out :: outs))
    (hout : out ≠ .connectionStateChanged .established) (hwakes : ∀ id, ¬ out.Wakes id) :
    r.Owes outs :=
  h.dealt rfl (fun hwaits => ⟨hwaits, hout⟩) h.accept fun streamId _ hp => ⟨hp, hwakes streamId⟩

theorem erase_ne {β : Type} {t : TreeMap Nat β} {k k' : Nat} {b : β}
    (h : (t.erase k)[k']? = some b) : k ≠ k' := by
  rintro rfl
  rw [TreeMap.getElem?_erase_self] at h
  cases h

/-- The read that a stream has woken is taken out. -/
theorem Runtime.Owes.woken {streamId : Nat} (h : r.Owes (out :: outs))
    (hout : out = .streamReadable streamId ∨ out = .streamFinished streamId) :
    Runtime.Owes outs { r with pendingReads := r.pendingReads.erase streamId } := by
  refine h.dealt rfl (fun hwaits => ⟨hwaits, ?_⟩) h.accept fun streamId' p hp =>
    ⟨erase_subset hp, fun hwakes => erase_ne hp ?_⟩
  · rcases hout with rfl | rfl <;> nofun
  · rcases hout with rfl | rfl <;> exact hwakes

/-- A read that waits does so on a stream that has nothing for it. -/
theorem ReadDone.owes (suite : Suite) {streamId : Nat} {p : PendingRead}
    (hdone : ReadDone streamId p r r') (h : r.Owes outs) : r'.Owes outs := by
  have hread := h.call (Within.after (readStream_alerts suite streamId p.maxLen))
  cases hdone with
  | answered => exact hread
  | waits hsends hstarved =>
      refine ⟨hread.connect, hread.accept, fun hopen streamId' p' hp' hlen => ?_⟩
      rw [TreeMap.getElem?_insert] at hp'
      split at hp'
      · next heq =>
          cases hp'
          exact .inl (Std.compare_eq_iff_eq.1 heq ▸ hstarved hlen)
      · exact hread.reads hopen streamId' p' hp' hlen

theorem WorkedOff.owes (suite : Suite) (h : WorkedOff r out (some r'))
    (howes : r.Owes (out :: outs)) : r'.Owes outs := by
  cases h with
  | sent packet => exact howes.skip nofun fun _ h => h
  | @accepted streamId response rest haccepts =>
      refine howes.dealt rfl (fun hwaits => ⟨hwaits, nofun⟩) (.inr ?_) fun _ _ hp =>
        ⟨hp, fun h => h⟩
      exact howes.accept.resolve_left (by rw [haccepts]; exact List.cons_ne_nil _ _)
  | incoming haccepts =>
      exact howes.dealt rfl (fun hwaits => ⟨hwaits, nofun⟩) (.inl haccepts) fun _ _ hp =>
        ⟨hp, fun h => h⟩
  | unread hout hnone =>
      refine howes.dealt rfl (fun hwaits => ⟨hwaits, ?_⟩) howes.accept fun streamId p hp =>
        ⟨hp, fun hwakes => ?_⟩
      · rcases hout with rfl | rfl <;> nofun
      · rcases hout with rfl | rfl <;> cases hwakes <;> cases hnone.symm.trans hp
  | read hout hp hdone => exact hdone.owes suite (howes.woken hout)
  | reset streamId errorCode =>
      exact howes.dealt rfl (fun hwaits => ⟨hwaits, nofun⟩) howes.accept fun _ _ hp =>
        ⟨erase_subset hp, erase_ne hp⟩
  | established accepted =>
      exact howes.dealt rfl nofun howes.accept fun _ _ hp => ⟨hp, fun h => h⟩
  | changed hstate =>
      exact howes.skip (fun heq => hstate (by cases heq; rfl)) fun _ h => h
  | closed errorCode =>
      exact howes.dealt rfl nofun (.inl rfl) fun _ _ hp => by
        rw [TreeMap.getElem?_emptyc] at hp
        cases hp

theorem Wrote.owes {streamIds : List Nat} {changed : Bool} (h : Wrote streamIds changed r r')
    (howes : r.Owes outs) : r'.Owes outs := by
  have hcall := howes.call h.alert
  rw [h.rest]
  exact ⟨hcall.connect, hcall.accept, hcall.reads⟩

/-! ## Working off the outputs -/

/-- What holds of the connection, if there is one. -/
def EventLoop.At (id : Nat) (P : Runtime → Prop) (s : EventLoop) : Prop :=
  ∀ r, s.connections[id]? = some r → P r

theorem WorksOff.owes (suite : Suite) (h : WorksOff id out s s')
    (howes : s.At id (Runtime.Owes (out :: outs))) : s'.At id (Runtime.Owes outs) := by
  unfold WorksOff at h
  intro r' hr'
  cases hr : s.connections[id]? with
  | none =>
      rw [hr] at h
      exact absurd (hr'.symm.trans h) nofun
  | some r =>
      rw [hr, hr'] at h
      exact h.owes suite (howes r hr)

theorem processEach_owes (outs : List CoreOutput) (howes : s.At id (Runtime.Owes outs)) :
    Ends (processEach suite world id outs) s (fun _ s' => s'.At id (Runtime.Owes []))
      fun _ _ => True := by
  induction outs generalizing s with
  | nil => exact howes
  | cons out rest ih =>
      rw [processEach, ends_bind]
      exact (processOutput_worksOff out).mono (fun _ s₁ h₁ => ih (h₁.owes suite howes))
        fun _ _ _ => trivial

theorem processRound_owes (howes : s.At id (Runtime.Owes [])) :
    Ends (processRound suite world id) s (fun _ s' => s'.At id (Runtime.Owes []))
      fun _ _ => True := by
  rw [processRound, ends_withConnection]
  refine ⟨fun _ => howes, fun r hr => ?_⟩
  have htaken : (s.put id r.taken).connections[id]? = some r.taken := TreeMap.getElem?_insert_self
  have howes' := (howes r hr).taken
  rw [ends_bind, ends_putRuntime, ends_ite]
  refine ⟨fun hempty => ?_, fun _ => ?_⟩
  · refine (servicePendingWrites_wrote suite htaken).mono ?_ fun _ _ h => h.elim
    rintro changed s' ⟨r', streamIds, hr', hwrote, _⟩ r₁ hr₁
    cases hr'.symm.trans hr₁
    rw [List.isEmpty_iff.1 hempty] at howes'
    exact hwrote.owes howes'
  · rw [ends_bind]
    refine (processEach_owes r.core.output fun r₁ hr₁ => ?_).mono (fun _ _ h => h) fun _ _ h => h
    cases htaken.symm.trans hr₁
    exact howes'

theorem processLoop_owes (fuel : Nat) (howes : s.At id (Runtime.Owes [])) :
    Ends (processLoop suite world id fuel) s (fun _ s' => s'.At id (Runtime.Owes []))
      fun _ _ => True := by
  induction fuel generalizing s with
  | zero => exact howes
  | succ fuel ih =>
      rw [processLoop, ends_bind]
      refine (processRound_owes howes).mono (fun goesOn s₁ h₁ => ?_) fun _ _ h => h
      rw [ends_ite]
      exact ⟨fun _ => ih h₁, fun _ => h₁⟩

/-- A flush is answered as soon as there is nothing left to acknowledge. -/
theorem serviceFlushes_at {P : Runtime → Prop} (h : s.At id P)
    (hflushed : ∀ r : Runtime, P r → P { r with pendingFlushes := [] }) :
    Ends (serviceFlushes id) s
      (fun _ s' => s'.At id fun r => P r ∧
        (r.pendingFlushes ≠ [] → r.core.isReliablyFlushed = false))
      fun _ _ => False := by
  rw [serviceFlushes, ends_withConnection]
  refine ⟨fun hnone r hr => absurd (hr.symm.trans hnone) (Option.some_ne_none r),
    fun r hr => ?_⟩
  rw [ends_ite]
  refine ⟨fun _ => ?_, fun hnot => ?_⟩
  · rw [ends_bind, ends_putRuntime, ends_respondAll]
    intro r' hr'
    cases hr'.symm.trans TreeMap.getElem?_insert_self
    exact ⟨hflushed r (h r hr), fun hne => absurd rfl hne⟩
  · intro r' hr'
    cases hr.symm.trans hr'
    exact ⟨h r hr, fun _ => by simpa using hnot⟩

/-- A connection that owes nothing but its outputs is settled when they are worked
off. -/
theorem processOutputs_at (howes : s.At id (Runtime.Owes [])) :
    Ends (processOutputs suite world id) s (fun _ s' => s'.At id Runtime.Settled)
      fun _ _ => True := by
  rw [processOutputs, ends_bind, ends_get, ends_bind]
  refine ((processLoop_owes _ howes).and (processLoop_drained _ (rounds_lt_processFuel s id))).mono
    (fun _ s₁ h₁ => ?_) fun _ _ _ => trivial
  have hboth : s₁.At id fun r => r.Owes [] ∧ r.Drained := fun r hr => ⟨h₁.1 r hr, h₁.2 r hr⟩
  rw [ends_bind]
  refine (serviceFlushes_at hboth fun r h => ⟨⟨h.1.connect, h.1.accept, h.1.reads⟩,
    ⟨h.2.output, h.2.writes⟩⟩).mono (fun _ s₂ h₂ => ?_) fun _ _ h => h.elim
  rw [ends_withConnection]
  refine ⟨fun hnone r hr => absurd (hr.symm.trans hnone) nofun, fun r hr => ?_⟩
  rw [ends_ite]
  refine ⟨fun _ => ?_, fun hopen r' hr' => ?_⟩
  · exact (removeRuntime_gone 0).mono (fun _ s' hs' r' hr' => absurd (hr'.symm.trans hs') nofun)
      fun _ _ h => h.elim
  · cases hr.symm.trans hr'
    obtain ⟨⟨howes, hdrained⟩, hflushes⟩ := h₂ r hr
    exact
      { output := hdrained.output
        opened := hopen
        connect := fun hwaits hst => by
          have hmem := howes.connect hwaits hst
          rw [hdrained.output] at hmem
          cases hmem
        accept := howes.accept
        reads := fun hopen streamId p hp hlen => by
          rcases howes.reads hopen streamId p hp hlen with hstarved | ⟨out, hout, _⟩
          · exact hstarved
          · rw [hdrained.output] at hout
            cases hout
        writes := hdrained.writes
        flushes := hflushes }

/-! ## Turns -/

def EventLoop.Settled (s : EventLoop) : Prop := s.Every fun _ r => r.Settled

/-- All is settled but for the outputs of one connection. -/
structure EventLoop.Unsettled (id : Nat) (s : EventLoop) : Prop where
  others : ∀ (id' : Nat) r, id' ≠ id → s.connections[id']? = some r → r.Settled
  own : s.At id (Runtime.Owes [])

theorem Touch.others {own : Op → Prop} {id' : Nat} (h : Touch suite own id s s') (hne : id' ≠ id) :
    s'.connections[id']? = s.connections[id']? := by
  have hcompare : ¬ compare id id' = .eq := fun heq => hne (Std.compare_eq_iff_eq.1 heq).symm
  cases h with
  | changed hr hstep => exact TreeMap.getElem?_insert.trans (if_neg hcompare)
  | removed hr hout => exact TreeMap.getElem?_erase.trans (if_neg hcompare)
  | _ => rfl

theorem Touched.others {own : Op → Prop} {id' : Nat} (h : Touched suite own id s s')
    (hne : id' ≠ id) : s'.connections[id']? = s.connections[id']? := by
  induction h with
  | refl => rfl
  | tail _ htouch ih => exact (htouch.others hne).trans ih

theorem EventLoop.Settled.unsettled (h : s.Settled) (id : Nat) : s.Unsettled id :=
  ⟨fun id' r _ hr => h id' r hr, fun r hr => (h id r hr).owes⟩

theorem EventLoop.Unsettled.put (h : s.Unsettled id) (howes : r'.Owes [])
    (hs' : s'.connections = (s.put id r').connections) : s'.Unsettled id where
  others id' r hne hr := by
    rw [hs'] at hr
    refine h.others id' r hne ?_
    rwa [EventLoop.put, TreeMap.getElem?_insert,
      if_neg fun heq => hne (Std.compare_eq_iff_eq.1 heq).symm] at hr
  own r hr := by
    rw [hs'] at hr
    cases hr.symm.trans TreeMap.getElem?_insert_self
    exact howes

theorem processOutputs_settles (h : s.Unsettled id) :
    Ends (processOutputs suite world id) s (fun _ s' => s'.Settled) fun _ _ => True := by
  have htouched : Within (Touched suite noneOwn id) (processOutputs suite world id) s :=
    processOutputs_touched world
  refine ((processOutputs_at h.own).and htouched).mono
    (fun _ s' h' id' r hr => ?_) fun _ _ _ => trivial
  by_cases hid : id' = id
  · subst hid
    exact h'.1 r hr
  · exact h.others id' r hid (((h'.2 : Touched suite noneOwn id s s').others hid).symm.trans hr)

theorem advanceEach_settles (now : Nat) (ids : List Nat) (h : s.Settled) :
    Ends (advanceEach suite world now ids) s (fun _ s' => s'.Settled) fun _ _ => True := by
  induction ids generalizing s with
  | nil => exact h
  | cons id rest ih =>
      rw [advanceEach, ends_bind, ends_withConnection]
      refine ⟨fun _ => ih h, fun r hr => ?_⟩
      cases hcall : call (Core.advanceTime (now - r.lastAdvancedAt)) r.core with
      | mk result core =>
      have halert : Alert r.core core := by
        rw [call_eq hcall]
        exact Within.after (advanceTime_alerts suite _)
      have hcalled := (h id r hr).owes.call halert
      have howes : Runtime.Owes [] { r with core := core, lastAdvancedAt := now } :=
        ⟨hcalled.connect, hcalled.accept, hcalled.reads⟩
      have hput : (s.put id { r with core := core, lastAdvancedAt := now }).Unsettled id :=
        (h.unsettled id).put howes rfl
      dsimp only
      rw [ends_bind, ends_putRuntime]
      cases result with
      | error error =>
          refine (removeRuntime_connections 4).mono (fun _ s₁ hs₁ => ih fun id' r' hr' => ?_)
            fun _ _ h => h.elim
          rw [hs₁] at hr'
          exact hput.others id' r' (Ne.symm (erase_ne hr')) (erase_subset hr')
      | ok => exact (processOutputs_settles hput).mono (fun _ _ h₁ => ih h₁) fun _ _ h => h

theorem advanceTime_settles (h : s.Settled) :
    Ends (advanceTime suite world) s (fun _ s' => s'.Settled) fun _ _ => True := by
  rw [advanceTime, ends_bind, ends_ask, ends_bind, ends_get, ends_bind, ends_ask]
  exact advanceEach_settles _ _ h

/-! ## Commands -/

variable (suite) in
/-- A new connection owes only what it put out at its start. -/
theorem fresh_owes (role : ConnectionRole) (config : ConnectionConfig)
    (h : Fresh suite role config r.core) (haccept : r.pendingAccepts = [])
    (hreads : r.pendingReads = ∅) : r.Owes [] where
  connect _ hst := by
    refine ((fresh_rise h).2.established hst).resolve_left ?_
    cases role <;> nofun
  accept := .inl haccept
  reads _ streamId p hp := by
    rw [hreads, TreeMap.getElem?_emptyc] at hp
    cases hp

theorem handleConnect_settles (path : PathBinding) (response : Nat) (h : s.Settled) :
    Ends (handleConnect suite world path response) s (fun _ s' => s'.Settled)
      fun _ _ => True := by
  rw [handleConnect, ends_bind, ends_get, ends_ite]
  refine ⟨fun _ => h, fun _ => ?_⟩
  rw [ends_bind, ends_ask]
  split
  · exact h
  · next id _ =>
      rw [ends_bind, ends_ask]
      split
      · exact h
      · next core hcore =>
          rw [ends_bind, ends_ask, ends_bind, ends_putRuntime]
          refine processOutputs_settles ((h.unsettled id).put (fresh_owes suite .client
            s.config.connection ?_ rfl rfl) rfl)
          exact ⟨id, _, hcore⟩

/-- A command for a connection, after which its outputs are worked off. -/
theorem settles_of (id : Nat) {m : LoopM Unit}
    (hm : Ends m s (fun _ s₁ => s₁.Unsettled id) fun _ _ => False) :
    Ends (m >>= fun _ => processOutputs suite world id) s (fun _ s' => s'.Settled)
      fun _ _ => True := by
  rw [ends_bind]
  exact hm.mono (fun _ s₁ h₁ => processOutputs_settles h₁) fun _ _ h => h.elim

/-- A call on the core leaves a settled connection with what the call put out. -/
theorem EventLoop.Settled.call {α : Type} {m : ConnM α} (h : s.Settled)
    (hr : s.connections[id]? = some r) (hm : Within Alert m r.core) :
    (s.put id { r with core := (Endpoint.call m r.core).2 }).Unsettled id := by
  refine (h.unsettled id).put ((h id r hr).owes.call ?_) rfl
  rw [call_snd]
  exact hm.after

theorem EventLoop.Unsettled.same (h : s.Unsettled id) (hs' : s'.connections = s.connections) :
    s'.Unsettled id where
  others id' r hne hr := h.others id' r hne (hs' ▸ hr)
  own r hr := h.own r (hs' ▸ hr)

theorem answerRead_unsettled (suite : Suite) (streamId : Nat) (p : PendingRead) (h : s.Settled)
    (hr : s.connections[id]? = some r) :
    Ends (answerRead id streamId r p) s (fun _ s' => s'.Unsettled id) fun _ _ => False := by
  refine (answerRead_done suite streamId p).mono ?_ fun _ _ h => h
  rintro _ s' ⟨r', hdone, hs'⟩
  exact (h.unsettled id).put (hdone.owes suite (h id r hr).owes) hs'

theorem tryWrite_unsettled (suite : Suite) (streamId : Nat) (p : PendingWrite) (h : s.Settled)
    (hr : s.connections[id]? = some r) :
    Ends (tryWrite id streamId r p) s (fun _ s' => s'.Unsettled id) fun _ _ => False := by
  refine (tryWrite_done streamId p).mono ?_ fun _ _ h => h
  rintro changed s' ⟨r', hdone, hs'⟩
  refine (h.unsettled id).put ?_ hs'
  have howes := (h id r hr).owes
  cases hdone with
  | answered => exact howes.call (Within.after (writeStream_alerts suite streamId p.data p.fin))
  | waits hfull => exact ⟨howes.connect, howes.accept, howes.reads⟩

/-- A stream that has come goes to the one who asks, or he waits for the next. -/
theorem acceptStream_settles (response : Nat) (h : s.Settled) :
    Ends (handleCommand suite world (.acceptStream id response)) s (fun _ s' => s'.Settled)
      fun _ _ => True := by
  rw [handleCommand, ends_withConnection]
  refine ⟨fun _ => h, fun r hr => ?_⟩
  have hsettled := h id r hr
  cases hincoming : r.incomingStreams with
  | cons streamId rest =>
      have haccept : r.pendingAccepts = [] :=
        hsettled.accept.resolve_right (by rw [hincoming]; exact List.cons_ne_nil _ _)
      simp only [ends_bind, ends_putRuntime, ends_respond]
      exact EventLoop.Every.put (I := fun _ r => r.Settled) h
        { hsettled with accept := .inl haccept }
  | nil =>
      simp only [ends_putRuntime]
      exact EventLoop.Every.put (I := fun _ r => r.Settled) h
        { hsettled with accept := .inr rfl }

theorem handleCommand_settles (command : Command) (h : s.Settled) :
    Ends (handleCommand suite world command) s (fun _ s' => s'.Settled) fun _ _ => True := by
  have hsame : ∀ {id : Nat} {response : Nat} {result : Response},
      Ends (respond response result) s (fun _ s₁ => s₁.Unsettled id) fun _ _ => False :=
    fun {id response result} => (h.unsettled id).same rfl
  cases command with
  | connect path response => exact handleConnect_settles path response h
  | openStream id response =>
      refine settles_of id (ends_withConnection.2 ⟨fun _ => hsame, fun r hr => ?_⟩)
      exact (h.call hr (openStream_alerts suite)).same rfl
  | acceptStream id response => exact acceptStream_settles response h
  | read id streamId maxLen response =>
      exact settles_of id (ends_withConnection.2 ⟨fun _ => hsame, fun r hr =>
        answerRead_unsettled suite streamId ⟨maxLen, response⟩ h hr⟩)
  | write id streamId data fin response =>
      refine settles_of id (ends_withConnection.2 ⟨fun _ => hsame, fun r hr => ?_⟩)
      rw [ends_bind]
      exact (tryWrite_unsettled suite streamId ⟨data, fin, response⟩ h hr).mono
        (fun _ _ h => h) fun _ _ h => h
  | flush id response =>
      refine settles_of id (ends_withConnection.2 ⟨fun _ => hsame, fun r hr =>
        ends_ite.2 ⟨fun _ => hsame, fun _ => ?_⟩⟩)
      have howes := (h id r hr).owes
      have hwaits : Runtime.Owes []
          { r with pendingFlushes := r.pendingFlushes ++ [response] } :=
        ⟨howes.connect, howes.accept, howes.reads⟩
      exact (h.unsettled id).put hwaits rfl
  | close id errorCode reason response =>
      refine settles_of id (ends_withConnection.2 ⟨fun _ => hsame, fun r hr => ?_⟩)
      exact (h.call hr (close_alerts suite errorCode reason)).same rfl
  | shutdown => exact h

/-! ## Datagrams -/

/-- The errors that leave the connection open are not about stream data. -/
theorem tolerated_data {e : CoreError} (h : tolerated e = true) : ¬ e.RefusesData := by
  cases e with
  | protocol error => exact fun h => h
  | connectionIdMismatch => exact fun h => h
  | _ => cases h

/-- A datagram that is refused for its data closes the connection. -/
theorem received_alert (suite : Suite) (bytes : Bytes) (c : Connection) :
    Alert c (received suite bytes c) := by
  have hrouses : Rouses (onDatagramBytes suite bytes) c := onDatagramBytes_rouses suite bytes
  have hwalks : Within Walk (onDatagramBytes suite bytes) c := by
    have hrises : Within (Rises True) (onDatagramBytes suite bytes) c :=
      (rises_of_still (decodeDatagram_still bytes)).bind fun p _ =>
        onDatagram_rises p fun _ => trivial
    exact hrises.mono fun _ => Rises.walk
  unfold received
  cases hcall : Endpoint.call (onDatagramBytes suite bytes) c with
  | mk result core =>
  cases result with
  | ok => exact hrouses.ok (call_ok hcall)
  | error error =>
      have hrun := call_error hcall
      dsimp only
      split
      · next htolerated => exact (hrouses.error hrun).resolve_left (tolerated_data htolerated)
      · obtain ⟨outs, hwalk⟩ : Walk c core := hwalks.error hrun
        obtain ⟨outs', halert⟩ :
            Alert core (after (Core.close 4 (ascii "invalid datagram")) core) :=
          Within.after (close_alerts suite 4 (ascii "invalid datagram"))
        exact ⟨outs ++ outs', hwalk.trans halert.toWalks, fun hopen =>
          absurd hopen (close_closes suite 4 (ascii "invalid datagram")).after⟩

theorem deliver_settles (bytes : Bytes) (h : s.Unsettled id) :
    Ends (deliver suite world bytes id) s (fun _ s' => s'.Settled) fun _ _ => True := by
  refine settles_of _ (ends_withConnection.2 ⟨fun _ => h, fun r hr => ?_⟩)
  exact h.put ((h.own r hr).call (received_alert suite bytes r.core)) rfl

theorem handleDatagram_settles (bytes : Bytes) (peer : SocketAddr) (h : s.Settled) :
    Ends (handleDatagram suite hmac world bytes peer) s (fun _ s' => s'.Settled)
      fun _ _ => True := by
  rw [handleDatagram, ends_bind, ends_get, ends_ite]
  refine ⟨fun _ => h, fun _ => ?_⟩
  split
  · exact h
  · next id hid =>
      split
      · next r hr =>
          rw [ends_ite]
          exact ⟨fun _ => deliver_settles bytes (h.unsettled id), fun _ => h⟩
      · next hnone =>
          rw [ends_bind]
          refine (handleUnknown_ends bytes peer).mono (fun admitted s₁ hjudged => ?_)
            fun _ _ _ => trivial
          rw [ends_ite]
          refine ⟨fun hyes => deliver_settles bytes ?_, fun hrefused => ?_⟩
          · obtain @⟨n, now, t, hello, core, entropy, hroom, hopens, hcore, hs₁⟩ := hjudged.2 hyes
            rw [hs₁]
            refine (h.unsettled id).put (fresh_owes suite .server
              s.config.connection ?_ rfl rfl) rfl
            exact ⟨id, entropy, hcore⟩
          · cases hjudged.1 (by simpa using hrefused) with
            | ignored n hs₁ => exact hs₁ ▸ h
            | retried henabled hlen hs₁ => exact hs₁ ▸ h

/-! ## Runs -/

theorem turn_settles (event : Event) (h : s.Settled) :
    Ends (turn suite hmac world event) s (fun _ s' => s'.Settled) fun _ _ => True := by
  rw [turn.eq_def, ends_bind]
  refine (advanceTime_settles h).mono (fun _ s₁ h₁ => ?_) fun _ _ h => h
  rw [ends_bind, ends_get, ends_bind, ends_ofExcept]
  refine ⟨fun _ _ => ?_, fun _ _ => trivial⟩
  cases event with
  | received datagram peer =>
      dsimp only
      rw [ends_bind, ends_get, ends_bind]
      exact handleDatagram_settles _ peer h₁
  | command command =>
      have hturn : Ends (do
          modify fun s => { s with asked := s.asked ++ [command] }
          handleCommand suite world command
          return true) s₁ (fun _ s' => s'.Settled) fun _ _ => True := by
        rw [ends_bind, ends_modify, ends_bind]
        exact handleCommand_settles command h₁
      cases command with
      | shutdown => exact h₁
      | _ => exact hturn
  | receiveFailed => exact h₁
  | commandsClosed => exact h₁
  | slept => exact h₁

/-- When all is closed, no connection is left. -/
theorem closeAll_settles :
    Ends (closeAll world) s (fun _ s' => s'.Settled) fun _ s' => s'.Settled := by
  rw [closeAll, ends_bind, ends_get, ends_bind, ends_ask]
  refine (removeAll_connections _).mono (fun _ s' hs' id r hr => ?_) fun _ _ h => h.elim
  obtain ⟨hr₁, hkeys⟩ := hs' id r hr
  refine absurd ((world.order_perm _ _).mem_iff.2 ?_) hkeys
  exact TreeMap.mem_keys.2 (TreeMap.mem_iff_isSome_getElem?.2 (by rw [hr₁]; rfl))

theorem step_settles (event : Event) (h : s.Settled) :
    (s.step suite hmac world event).Settled := by
  have hturn : Ends (turn suite hmac world event) s (fun _ s' => s'.Settled) fun _ _ => True :=
    turn_settles event h
  have hstops : ∀ s₁ : EventLoop,
      EventLoop.Settled { after (closeAll world) s₁ with stopped := true } := fun s₁ => by
    have hclosed : (after (closeAll world) s₁).Settled := closeAll_settles.after
    exact hclosed
  unfold EventLoop.step
  split
  · exact h
  · split
    · next s₁ hrun => exact hturn.ok hrun
    · exact hstops _
    · exact hstops _

/-- In every run of the loop, when a turn is over, nobody waits for what is there:
the outputs of every connection are worked off and it is not closed; a `connect`
waits only until the connection is established, an `accept` only while no stream
has come, a read of at least one byte on an open connection only on a stream that
has nothing to read and has not ended, a write only while the core has no room for
it, and a flush only while something is not acknowledged. -/
theorem settled_runs (suite : Suite)
    (hmac : (secret : Vector UInt8 32) → (message : Bytes) → Vector UInt8 32) (world : World)
    (config : EndpointConfig) (events : List Event) :
    ∀ (id : Nat) r, (EventLoop.run suite hmac world { config := config } events).connections[id]? =
      some r → r.Settled := by
  have hrun : ∀ (events : List Event) (s : EventLoop), s.Settled →
      (s.run suite hmac world events).Settled := by
    intro events
    induction events with
    | nil => exact fun _ h => h
    | cons event rest ih =>
        exact fun s h => ih (s.step suite hmac world event) (step_settles event h)
  refine hrun events { config := config } fun id r hr => ?_
  rw [TreeMap.getElem?_emptyc] at hr
  cases hr

/-- One in which the hello of a client goes out whole. -/
def waitingWorld : World := { sampleWorld with sendTo := fun _ => .ok 104 }

/-- A connection that was asked for and has heard nothing yet. -/
theorem settled_runs_sample :
    ∃ r, (EventLoop.run sampleSuite retryMac waitingWorld { config := retryingConfig }
        [.command (.connect ⟨samplePeer 4000⟩ 3)]).connections[7]? = some r ∧
      r.connectWaiter = some 3 ∧ r.Settled := by
  have hwaits : ((EventLoop.run sampleSuite retryMac waitingWorld { config := retryingConfig }
      [.command (.connect ⟨samplePeer 4000⟩ 3)]).connections[7]?).any
        (·.connectWaiter == some 3) = true := by decide +kernel
  obtain ⟨r, hr, hwaiter⟩ := (Option.any_eq_true _ _).1 hwaits
  exact ⟨r, hr, beq_iff_eq.1 hwaiter, settled_runs _ _ _ _ _ 7 r hr⟩

end DartUdp.Endpoint
