import DartUdp.Proofs.ConnWakes
import DartUdp.Proofs.EndpointTurns

/-!
# The outputs are worked off

Working off an output can make the core put out more: a read that is answered
moves a window or ends the stream, a write that is let in is sent. The loop of
`process_outputs` goes on until nothing is left, and it comes to that: a round
answers one of those who wait, or what it leaves are packets, or nothing.

The module is for `outputs_worked_off`. `processRound_rounds` says that
`Runtime.rounds` gets smaller, `processLoop_enough` that the fuel is therefore
enough, and `processLoop_drained` what is left at the end.
-/

namespace DartUdp.Endpoint

open Std (TreeMap)
open DartUdp.Lib DartUdp.Udp DartUdp.Core

variable {suite : Suite} {world : World} {id : Nat} {s s' : EventLoop} {r r' : Runtime}

/-! ## What is done for one output -/

/-- How a read turns out: it is answered, or it waits for something to read. -/
inductive ReadDone (streamId : Nat) (p : PendingRead) (r : Runtime) : Runtime → Prop
  | answered : ReadDone streamId p r
      { r with core := after (readStream streamId p.maxLen) r.core }
  | waits (hsends : Sends r.core (after (readStream streamId p.maxLen) r.core))
      (hstarved : 0 < p.maxLen →
        (after (readStream streamId p.maxLen) r.core).view.Starved streamId) :
      ReadDone streamId p r
        { r with
          core := after (readStream streamId p.maxLen) r.core
          pendingReads := r.pendingReads.insert streamId p }

theorem call_ok {α : Type} {m : ConnM α} {c c' : Connection} {a : α}
    (h : call m c = (.ok a, c')) : m c = .ok a c' := by
  unfold call at h
  cases hrun : m c with
  | ok a' c₁ =>
      rw [hrun] at h
      cases h
      rfl
  | error e c₁ =>
      rw [hrun] at h
      cases h

theorem call_error {α : Type} {m : ConnM α} {c c' : Connection} {e : CoreError}
    (h : call m c = (.error e, c')) : m c = .error e c' := by
  unfold call at h
  cases hrun : m c with
  | ok a' c₁ =>
      rw [hrun] at h
      cases h
  | error e' c₁ =>
      rw [hrun] at h
      cases h
      rfl

theorem answerRead_done (suite : Suite) (streamId : Nat) (p : PendingRead) :
    Ends (answerRead id streamId r p) s
      (fun _ s' => ∃ r', ReadDone streamId p r r' ∧ s'.connections = (s.put id r').connections)
      fun _ _ => False := by
  unfold answerRead
  cases hcall : call (readStream streamId p.maxLen) r.core with
  | mk result core =>
  obtain rfl : core = after (readStream streamId p.maxLen) r.core := call_eq hcall
  have hanswered : ReadDone streamId p r
      { r with core := after (readStream streamId p.maxLen) r.core } := .answered
  cases result with
  | error error => exact ⟨_, hanswered, rfl⟩
  | ok result =>
      dsimp only
      rw [ends_ite]
      refine ⟨fun _ => ⟨_, hanswered, rfl⟩, fun hempty => ?_⟩
      have hdata : result.data = [] ∧ result.eof = false := by
        simpa using hempty
      obtain ⟨hsends, hstarved⟩ :=
        (readStream_nothing suite streamId p.maxLen).ok (call_ok hcall) hdata.1 hdata.2
      exact ⟨_, .waits hsends hstarved, rfl⟩

/-- There is no room for the write now. -/
def Blocked (c : Connection) (streamId : Nat) (p : PendingWrite) : Prop :=
  writeStream streamId p.data p.fin c = .error .sendBufferFull c

/-- How a write turns out: it is answered, or it waits for room and nothing else
changes. -/
inductive WriteDone (streamId : Nat) (p : PendingWrite) (r : Runtime) : Bool → Runtime → Prop
  | answered : WriteDone streamId p r true
      { r with core := after (writeStream streamId p.data p.fin) r.core }
  | waits (hfull : Blocked r.core streamId p) : WriteDone streamId p r false
      { r with pendingWrites := r.pendingWrites.insert streamId p }

theorem tryWrite_done (streamId : Nat) (p : PendingWrite) :
    Ends (tryWrite id streamId r p) s
      (fun changed s' => ∃ r', WriteDone streamId p r changed r' ∧
        s'.connections = (s.put id r').connections)
      fun _ _ => False := by
  unfold tryWrite
  cases hcall : call (writeStream streamId p.data p.fin) r.core with
  | mk result core =>
  have hcore : core = after (writeStream streamId p.data p.fin) r.core := call_eq hcall
  have hanswered : WriteDone streamId p r true { r with core := core } := hcore ▸ .answered
  dsimp only
  split
  · exact ⟨_, hanswered, rfl⟩
  · have hrun := call_error hcall
    have hsame : core = r.core := (writeStream_full streamId p.data p.fin).error hrun rfl
    subst hsame
    exact ⟨_, .waits hrun, rfl⟩
  · exact ⟨_, hanswered, rfl⟩

/-- What working off an output leaves of a connection. -/
inductive WorkedOff (r : Runtime) : CoreOutput → Option Runtime → Prop
  | sent (packet : Packet) : WorkedOff r (.send packet) (some r)
  | accepted {streamId response : Nat} {rest : List Nat}
      (haccepts : r.pendingAccepts = response :: rest) :
      WorkedOff r (.streamOpened streamId) (some { r with pendingAccepts := rest })
  | incoming {streamId : Nat} (haccepts : r.pendingAccepts = []) :
      WorkedOff r (.streamOpened streamId)
        (some { r with incomingStreams := r.incomingStreams ++ [streamId] })
  | unread {out : CoreOutput} {streamId : Nat}
      (hout : out = .streamReadable streamId ∨ out = .streamFinished streamId)
      (hnone : r.pendingReads[streamId]? = none) : WorkedOff r out (some r)
  | read {out : CoreOutput} {streamId : Nat} {p : PendingRead} {r' : Runtime}
      (hout : out = .streamReadable streamId ∨ out = .streamFinished streamId)
      (hp : r.pendingReads[streamId]? = some p)
      (hdone : ReadDone streamId p { r with pendingReads := r.pendingReads.erase streamId } r') :
      WorkedOff r out (some r')
  | reset (streamId errorCode : Nat) :
      WorkedOff r (.streamReset streamId errorCode)
        (some
          { r with
            pendingReads := r.pendingReads.erase streamId
            pendingWrites := r.pendingWrites.erase streamId })
  | established (accepted : Bool) :
      WorkedOff r (.connectionStateChanged .established)
        (some { r with connectWaiter := none, accepted := accepted })
  | refused : WorkedOff r (.connectionStateChanged .established) none
  | changed {state : ConnectionState} (hstate : state ≠ .established) :
      WorkedOff r (.connectionStateChanged state) (some r)
  | closed (errorCode : Nat) :
      WorkedOff r (.connectionClosed errorCode)
        (some
          { r with
            connectWaiter := none
            pendingAccepts := []
            pendingReads := ∅
            pendingWrites := ∅
            pendingFlushes := [] })

/-- The connection after the output, where there was one. -/
def WorksOff (id : Nat) (out : CoreOutput) (s s' : EventLoop) : Prop :=
  match s.connections[id]? with
  | none => s'.connections[id]? = none
  | some r => WorkedOff r out s'.connections[id]?

theorem worksOff_put {out : CoreOutput} (hr : s.connections[id]? = some r)
    (h : WorkedOff r out (some r')) (hs' : s'.connections = (s.put id r').connections) :
    WorksOff id out s s' := by
  unfold WorksOff
  rw [hr, hs']
  show WorkedOff r out (s.connections.insert id r')[id]?
  rw [TreeMap.getElem?_insert_self]
  exact h

theorem worksOff_same {out : CoreOutput} (h : ∀ r, s.connections[id]? = some r →
      WorkedOff r out (some r)) (hs' : s'.connections = s.connections) : WorksOff id out s s' := by
  unfold WorksOff
  rw [hs']
  cases hr : s.connections[id]? with
  | none => rfl
  | some r => exact h r hr

theorem serviceRead_worksOff (suite : Suite) {out : CoreOutput} {streamId : Nat}
    (hout : out = .streamReadable streamId ∨ out = .streamFinished streamId) :
    Ends (serviceRead id streamId) s (fun _ s' => WorksOff id out s s') fun _ _ => False := by
  rw [serviceRead, ends_withConnection]
  refine ⟨fun hr => ?_, fun r hr => ?_⟩
  · exact worksOff_same (fun r hr' => by rw [hr] at hr'; cases hr') rfl
  · cases hp : r.pendingReads[streamId]? with
    | none =>
        refine worksOff_same (fun r' hr' => ?_) rfl
        cases hr.symm.trans hr'
        exact .unread hout hp
    | some p =>
        refine (answerRead_done suite streamId p).mono ?_ fun _ _ h => h
        rintro _ s' ⟨r', hdone, hs'⟩
        exact worksOff_put hr (.read hout hp hdone) hs'

theorem onStreamOpened_worksOff (streamId : Nat) :
    Ends (onStreamOpened id streamId) s (fun _ s' => WorksOff id (.streamOpened streamId) s s')
      fun _ _ => False := by
  rw [onStreamOpened, ends_withConnection]
  refine ⟨fun hr => worksOff_same (fun r hr' => by rw [hr] at hr'; cases hr') rfl, fun r hr => ?_⟩
  cases haccepts : r.pendingAccepts with
  | nil =>
      simp only [ends_putRuntime]
      exact worksOff_put hr (.incoming haccepts) (by rw [haccepts])
  | cons response rest =>
      simp only [ends_bind, ends_putRuntime, ends_respond]
      exact worksOff_put hr (.accepted haccepts) rfl

theorem failStreamWaiters_worksOff (streamId errorCode : Nat) :
    Ends (failStreamWaiters id streamId errorCode) s
      (fun _ s' => WorksOff id (.streamReset streamId errorCode) s s') fun _ _ => False := by
  rw [failStreamWaiters, ends_withConnection]
  refine ⟨fun hr => worksOff_same (fun r hr' => by rw [hr] at hr'; cases hr') rfl, fun r hr => ?_⟩
  simp only [ends_bind, ends_putRuntime, ends_respondAll]
  exact worksOff_put hr (.reset streamId errorCode) rfl

theorem failConnectionWaiters_worksOff (errorCode : Nat) :
    Ends (failConnectionWaiters world id errorCode) s
      (fun _ s' => WorksOff id (.connectionClosed errorCode) s s') fun _ _ => False := by
  rw [failConnectionWaiters, ends_withConnection]
  refine ⟨fun hr => worksOff_same (fun r hr' => by rw [hr] at hr'; cases hr') rfl, fun r hr => ?_⟩
  rw [ends_bind, ends_putRuntime, ends_bind]
  refine (drainReads_ends world errorCode r _).mono ?_ fun _ _ h => h
  rintro _ _ ⟨reads, n, -, rfl⟩
  rw [ends_bind]
  refine (drainWrites_ends world errorCode r _).mono ?_ fun _ _ h => h
  rintro _ _ ⟨writes, m, -, rfl⟩
  simp only [ends_bind, ends_respondAll]
  exact worksOff_put hr (.closed errorCode) rfl

theorem removeRuntime_gone (errorCode : Nat) :
    Ends (removeRuntime world id errorCode) s (fun _ s' => s'.connections[id]? = none)
      fun _ _ => False := by
  refine (removeRuntime_connections errorCode).mono (fun _ s' hs' => ?_) fun _ _ h => h
  rw [hs' id, TreeMap.getElem?_erase_self]

theorem onEstablished_worksOff :
    Ends (onEstablished world id) s
      (fun _ s' => WorksOff id (.connectionStateChanged .established) s s') fun _ _ => False := by
  rw [onEstablished, ends_withConnection]
  refine ⟨fun hr => worksOff_same (fun r hr' => by rw [hr] at hr'; cases hr') rfl, fun r hr => ?_⟩
  have hgone : ∀ s' : EventLoop, s'.connections[id]? = none →
      WorksOff id (.connectionStateChanged .established) s s' := fun s' hs' => by
    unfold WorksOff
    rw [hr, hs']
    exact .refused
  rw [ends_ite]
  refine ⟨fun _ => ?_, fun _ => ?_⟩
  · rw [ends_bind, ends_ask]
    split
    · simp only [ends_bind, ends_modify, ends_putRuntime, ends_respondAll]
      exact worksOff_put hr (.established true) rfl
    · exact (removeRuntime_gone 0).mono (fun _ s' hs' => hgone s' hs') fun _ _ h => h
    · exact (removeRuntime_gone 0).mono (fun _ s' hs' => hgone s' hs') fun _ _ h => h
  · simp only [ends_bind, ends_putRuntime, ends_respondAll]
    exact worksOff_put hr (.established r.accepted) rfl

theorem processOutput_worksOff (out : CoreOutput) :
    Ends (processOutput suite world id out) s (fun _ s' => WorksOff id out s s')
      fun _ _ => True := by
  have hsafe : ∀ {m : LoopM Unit},
      Ends m s (fun _ s' => WorksOff id out s s') (fun _ _ => False) →
        Ends m s (fun _ s' => WorksOff id out s s') fun _ _ => True :=
    fun h => h.mono (fun _ _ h => h) fun _ _ _ => trivial
  cases out with
  | send packet =>
      rw [processOutput, ends_withConnection]
      refine ⟨fun _ => trivial, fun r hr => ?_⟩
      rw [ends_bind, ends_ofExcept]
      refine ⟨fun bytes hencode => ?_, fun _ _ => trivial⟩
      refine (sendTo_ends world bytes r.path.peer).mono ?_ fun _ _ _ => trivial
      rintro _ _ rfl
      exact worksOff_same (fun _ _ => .sent packet) rfl
  | streamOpened streamId => exact hsafe (onStreamOpened_worksOff streamId)
  | streamReadable streamId => exact hsafe (serviceRead_worksOff suite (.inl rfl))
  | streamFinished streamId => exact hsafe (serviceRead_worksOff suite (.inr rfl))
  | streamReset streamId errorCode => exact hsafe (failStreamWaiters_worksOff streamId errorCode)
  | connectionStateChanged state =>
      by_cases hstate : state = .established
      · subst hstate
        exact hsafe onEstablished_worksOff
      · have hsame : WorksOff id (.connectionStateChanged state) s s :=
          worksOff_same (fun _ _ => .changed hstate) rfl
        cases state with
        | established => exact absurd rfl hstate
        | _ => exact hsame
  | connectionClosed errorCode => exact hsafe (failConnectionWaiters_worksOff errorCode)

/-! ## How much there is to do -/

/-- The reads and writes that wait. -/
def Runtime.load (r : Runtime) : Nat := r.pendingReads.size + r.pendingWrites.size

/-- Outputs to come, or packets only, or nothing. -/
def stage (outs : List CoreOutput) : Nat :=
  if outs = [] then 0 else if outs.all CoreOutput.isSend then 1 else 2

/-- A bound for the rounds that go on. -/
def Runtime.rounds (r : Runtime) : Nat := 3 * r.load + stage r.core.output

def EventLoop.rounds (s : EventLoop) (id : Nat) : Nat := s.connections[id]?.elim 0 Runtime.rounds

theorem stage_le (outs : List CoreOutput) : stage outs ≤ 2 := by
  unfold stage
  split
  · omega
  · split <;> omega

theorem stage_sends {outs : List CoreOutput} (h : outs.all CoreOutput.isSend = true) :
    stage outs ≤ 1 := by
  unfold stage
  rw [if_pos h]
  split <;> omega

theorem rounds_lt_processFuel (s : EventLoop) (id : Nat) : s.rounds id < s.processFuel id := by
  unfold EventLoop.rounds EventLoop.processFuel
  cases s.connections[id]? with
  | none => exact Nat.one_pos
  | some r =>
      have hstage := stage_le r.core.output
      show 3 * (r.pendingReads.size + r.pendingWrites.size) + stage r.core.output <
        3 * (r.pendingReads.size + r.pendingWrites.size) + 3
      omega

/-- One of those who wait is done with, or nobody came and only packets went out. -/
def Runtime.Lighter (r r' : Runtime) : Prop :=
  r'.load < r.load ∨ r'.load ≤ r.load ∧ Sends r.core r'.core

theorem Runtime.Lighter.trans {r'' : Runtime} (h : r.Lighter r') (h' : r'.Lighter r'') :
    r.Lighter r'' := by
  rcases h with hlt | ⟨hle, hsends⟩
  · rcases h' with hlt' | ⟨hle', -⟩
    · exact .inl (hlt'.trans hlt)
    · exact .inl (hle'.trans_lt hlt)
  · rcases h' with hlt' | ⟨hle', hsends'⟩
    · exact .inl (hlt'.trans_le hle)
    · exact .inr ⟨hle'.trans hle, IsTrans.trans _ _ _ hsends hsends'⟩

theorem Runtime.Lighter.same (hload : r'.load ≤ r.load) (hcore : r'.core = r.core) :
    r.Lighter r' := .inr ⟨hload, .same (by rw [hcore])⟩

theorem size_erase_lt {β : Type} {t : TreeMap Nat β} {k : Nat} {b : β} (h : t[k]? = some b) :
    (t.erase k).size < t.size := by
  have hmem : k ∈ t := TreeMap.mem_iff_isSome_getElem?.2 (by rw [h]; rfl)
  have hpos : 0 < t.size := by
    rw [← TreeMap.length_keys]
    exact List.length_pos_of_mem (TreeMap.mem_keys.2 hmem)
  rw [TreeMap.size_erase, if_pos (TreeMap.mem_iff_contains.1 hmem)]
  omega

theorem size_insert_erase {β : Type} {t : TreeMap Nat β} {k : Nat} {b : β} (b' : β)
    (h : t[k]? = some b) : ((t.erase k).insert k b').size ≤ t.size :=
  TreeMap.size_insert_le.trans (size_erase_lt h)

/-- Working off an output makes a connection lighter. -/
theorem WorkedOff.lighter {out : CoreOutput} (h : WorkedOff r out (some r')) : r.Lighter r' := by
  cases h with
  | sent packet => exact .same (le_refl _) rfl
  | accepted haccepts => exact .same (le_refl _) rfl
  | incoming haccepts => exact .same (le_refl _) rfl
  | unread hout hnone => exact .same (le_refl _) rfl
  | @read _ streamId p _ hout hp hdone =>
      have herase := size_erase_lt hp
      cases hdone with
      | answered => exact .inl (Nat.add_lt_add_right herase _)
      | waits hsends hstarved =>
          exact .inr ⟨Nat.add_le_add_right (size_insert_erase p hp) _, hsends⟩
  | reset streamId errorCode =>
      exact .same (Nat.add_le_add TreeMap.size_erase_le TreeMap.size_erase_le) rfl
  | established accepted => exact .same (le_refl _) rfl
  | changed hstate => exact .same (le_refl _) rfl
  | closed errorCode => exact .same (Nat.zero_le _) rfl

/-- A packet that is sent changes no connection. -/
theorem WorkedOff.send {out : CoreOutput} {left : Option Runtime} (h : WorkedOff r out left)
    (hout : out.isSend = true) : left = some r := by
  cases h with
  | sent packet => rfl
  | unread hout' hnone => rfl
  | read hout' => rcases hout' with rfl | rfl <;> cases hout
  | _ => cases hout

/-- What is left of a connection is lighter. -/
def Eases (id : Nat) (s s' : EventLoop) : Prop :=
  ∀ r', s'.connections[id]? = some r' → ∃ r, s.connections[id]? = some r ∧ r.Lighter r'

instance : IsPreorder EventLoop (Eases id) where
  refl _ r hr := ⟨r, hr, .same (le_refl _) rfl⟩
  trans _ _ _ h h' r'' hr'' := by
    obtain ⟨r', hr', hlight'⟩ := h' r'' hr''
    obtain ⟨r, hr, hlight⟩ := h r' hr'
    exact ⟨r, hr, hlight.trans hlight'⟩

theorem WorksOff.eases {out : CoreOutput} (h : WorksOff id out s s') : Eases id s s' := by
  unfold WorksOff at h
  intro r' hr'
  cases hr : s.connections[id]? with
  | none =>
      rw [hr] at h
      exact absurd (hr'.symm.trans h) nofun
  | some r =>
      rw [hr, hr'] at h
      exact ⟨r, rfl, h.lighter⟩

theorem processEach_eases (outs : List CoreOutput) :
    Ends (processEach suite world id outs) s (fun _ s' => Eases id s s') fun _ _ => True := by
  induction outs generalizing s with
  | nil => exact (Std.Refl.refl s : Eases id s s)
  | cons out rest ih =>
      rw [processEach, ends_bind]
      refine (processOutput_worksOff out).mono (fun _ s₁ h₁ => ?_) fun _ _ _ => trivial
      exact ih.mono (fun _ s' h' => IsTrans.trans _ _ _ h₁.eases h') fun _ _ _ => trivial

/-- Packets leave the connection as it is. -/
theorem processEach_sends (outs : List CoreOutput) (houts : outs.all CoreOutput.isSend = true) :
    Ends (processEach suite world id outs) s
      (fun _ s' => s'.connections[id]? = s.connections[id]?) fun _ _ => True := by
  induction outs generalizing s with
  | nil => rfl
  | cons out rest ih =>
      rw [List.all_cons, Bool.and_eq_true] at houts
      rw [processEach, ends_bind]
      refine (processOutput_worksOff out).mono (fun _ s₁ h₁ => ?_) fun _ _ _ => trivial
      have hsame : s₁.connections[id]? = s.connections[id]? := by
        unfold WorksOff at h₁
        cases hr : s.connections[id]? with
        | none =>
            rw [hr] at h₁
            exact h₁
        | some r =>
            rw [hr] at h₁
            exact h₁.send houts.1
      exact (ih houts.2).mono (fun _ s' h' => h'.trans hsame) fun _ _ _ => trivial

/-! ## Writes that wait -/

/-- What trying the writes of some streams leaves of a connection. -/
structure Wrote (streamIds : List Nat) (changed : Bool) (r r' : Runtime) : Prop where
  rest : r' = { r with core := r'.core, pendingWrites := r'.pendingWrites }
  alert : Alert r.core r'.core
  fewer : r'.pendingWrites.size ≤ r.pendingWrites.size
  served : changed = true → r'.pendingWrites.size < r.pendingWrites.size
  core : changed = false → r'.core = r.core
  waiting : changed = false → ∀ streamId : Nat,
    r'.pendingWrites[streamId]? = r.pendingWrites[streamId]?
  blocked : changed = false → ∀ streamId ∈ streamIds, ∀ p,
    r.pendingWrites[streamId]? = some p → Blocked r.core streamId p

theorem Wrote.refl (r : Runtime) : Wrote [] false r r where
  rest := rfl
  alert := Std.Refl.refl r.core
  fewer := le_refl _
  served := nofun
  core _ := rfl
  waiting _ _ := rfl
  blocked _ _ := nofun

/-- There was no write on the stream. -/
theorem Wrote.skip {streamId : Nat} {streamIds : List Nat} {changed : Bool}
    (hnone : r.pendingWrites[streamId]? = none) (h : Wrote streamIds changed r r') :
    Wrote (streamId :: streamIds) changed r r' :=
  { h with
    blocked := fun hchanged streamId' hmem p hp => by
      rcases List.mem_cons.1 hmem with rfl | hmem
      · cases hnone.symm.trans hp
      · exact h.blocked hchanged streamId' hmem p hp }

theorem Wrote.step {streamId : Nat} {streamIds : List Nat} {changed later : Bool}
    {p : PendingWrite} {r₁ : Runtime} (suite : Suite) (hp : r.pendingWrites[streamId]? = some p)
    (hdone : WriteDone streamId p { r with pendingWrites := r.pendingWrites.erase streamId }
      changed r₁) (h : Wrote streamIds later r₁ r') :
    Wrote (streamId :: streamIds) (later || changed) r r' := by
  have hsize := size_erase_lt hp
  cases hdone with
  | answered =>
      have hless : r'.pendingWrites.size < r.pendingWrites.size := h.fewer.trans_lt hsize
      have hwrite : Alert r.core (after (writeStream streamId p.data p.fin) r.core) :=
        Within.after (writeStream_alerts suite streamId p.data p.fin)
      rw [Bool.or_true]
      exact
        { rest := h.rest
          alert := IsTrans.trans _ _ _ hwrite h.alert
          fewer := hless.le
          served := fun _ => hless
          core := nofun
          waiting := nofun
          blocked := nofun }
  | waits hfull =>
      have hsame : ∀ k : Nat, ((r.pendingWrites.erase streamId).insert streamId p)[k]? =
          r.pendingWrites[k]? := fun k => by
        rw [TreeMap.getElem?_insert]
        split
        · next heq => rw [← Std.compare_eq_iff_eq.1 heq, hp]
        · next hne => rw [TreeMap.getElem?_erase, if_neg hne]
      have hle : ((r.pendingWrites.erase streamId).insert streamId p).size ≤
          r.pendingWrites.size := size_insert_erase p hp
      rw [Bool.or_false]
      exact
        { rest := h.rest
          alert := h.alert
          fewer := h.fewer.trans hle
          served := fun hlater => (h.served hlater).trans_le hle
          core := h.core
          waiting := fun hlater k => (h.waiting hlater k).trans (hsame k)
          blocked := fun hlater k hmem p' hp' => by
            rcases List.mem_cons.1 hmem with rfl | hmem
            · cases hp.symm.trans hp'
              exact hfull
            · exact h.blocked hlater k hmem p' ((hsame k).trans hp') }

/-- The writes of a connection are tried one after another. -/
theorem serviceWrites_wrote (suite : Suite) (streamIds : List Nat)
    (hr : s.connections[id]? = some r) :
    Ends (serviceWrites id streamIds) s
      (fun changed s' => ∃ r', s'.connections[id]? = some r' ∧ Wrote streamIds changed r r')
      fun _ _ => False := by
  induction streamIds generalizing s r with
  | nil => exact ⟨r, hr, .refl r⟩
  | cons streamId rest ih =>
      rw [serviceWrites, ends_withConnection]
      refine ⟨fun hnone => (by rw [hr] at hnone; cases hnone), fun r' hr' => ?_⟩
      cases hr.symm.trans hr'
      cases hp : r.pendingWrites[streamId]? with
      | none =>
          refine (ih hr).mono ?_ fun _ _ h => h
          rintro changed s' ⟨r', hr', hwrote⟩
          exact ⟨r', hr', hwrote.skip hp⟩
      | some p =>
          dsimp only
          rw [ends_bind]
          refine (tryWrite_done streamId p).mono ?_ fun _ _ h => h
          rintro changed s₁ ⟨r₁, hdone, hs₁⟩
          have hr₁ : s₁.connections[id]? = some r₁ := by
            rw [hs₁]
            exact TreeMap.getElem?_insert_self
          rw [ends_bind]
          refine (ih hr₁).mono ?_ fun _ _ h => h
          rintro later s' ⟨r', hr', hwrote⟩
          exact ⟨r', hr', .step suite hp hdone hwrote⟩

theorem servicePendingWrites_wrote (suite : Suite) (hr : s.connections[id]? = some r) :
    Ends (servicePendingWrites world id) s
      (fun changed s' => ∃ r' streamIds, s'.connections[id]? = some r' ∧
        Wrote streamIds changed r r' ∧
        ∀ (streamId : Nat) p, r.pendingWrites[streamId]? = some p → streamId ∈ streamIds)
      fun _ _ => False := by
  rw [servicePendingWrites, ends_bind, ends_get, ends_bind, ends_ask]
  refine (serviceWrites_wrote suite _ (s := { s with questions := s.questions + 1 }) hr).mono ?_
    fun _ _ h => h
  rintro changed s' ⟨r', hr', hwrote⟩
  refine ⟨r', _, hr', hwrote, fun streamId p hp => ?_⟩
  rw [(world.order_perm _ _).mem_iff, hr]
  exact TreeMap.mem_keys.2 (TreeMap.mem_iff_isSome_getElem?.2 (by rw [hp]; rfl))

/-! ## Rounds -/

/-- Nothing has come out of the core, and there is no room for the writes that wait. -/
structure Runtime.Drained (r : Runtime) : Prop where
  output : r.core.output = []
  writes : ∀ (streamId : Nat) p, r.pendingWrites[streamId]? = some p → Blocked r.core streamId p

/-- After the outputs are taken. -/
def Runtime.taken (r : Runtime) : Runtime := { r with core := { r.core with output := [] } }

theorem Wrote.drained {streamIds : List Nat} (h : Wrote streamIds false r r')
    (houtput : r.core.output = [])
    (hall : ∀ (streamId : Nat) p, r.pendingWrites[streamId]? = some p → streamId ∈ streamIds) :
    r'.Drained where
  output := (congrArg Connection.output (h.core rfl)).trans houtput
  writes streamId p hp := by
    rw [h.waiting rfl] at hp
    rw [h.core rfl]
    exact h.blocked rfl streamId (hall streamId p hp) p hp

theorem Wrote.rounds {streamIds : List Nat} (h : Wrote streamIds true r r') :
    r'.rounds < 3 * r.load := by
  have hstage := stage_le r'.core.output
  have hserved := h.served rfl
  have hreads : r'.pendingReads = r.pendingReads := by rw [h.rest]
  unfold Runtime.rounds Runtime.load
  rw [hreads]
  omega

/-- A round that goes on has brought the end closer, and one that does not was the
last. -/
theorem processRound_rounds (suite : Suite) (world : World) (id : Nat) (s : EventLoop) :
    Ends (processRound suite world id) s
      (fun goesOn s' => (goesOn = true → s'.rounds id < s.rounds id) ∧
        (goesOn = false → ∀ r', s'.connections[id]? = some r' → r'.Drained))
      fun _ _ => True := by
  rw [processRound, ends_withConnection]
  refine ⟨fun hnone => ⟨(fun h => by cases h), fun _ r' hr' =>
    absurd (hr'.symm.trans hnone) (Option.some_ne_none r')⟩, fun r hr => ?_⟩
  rw [ends_bind, ends_putRuntime]
  have htaken : (s.put id r.taken).connections[id]? = some r.taken := TreeMap.getElem?_insert_self
  have hrounds : s.rounds id = r.rounds := by
    unfold EventLoop.rounds
    rw [hr]
    rfl
  rw [ends_ite, hrounds]
  refine ⟨fun hempty => ?_, fun hsome => ?_⟩
  · have hnone : r.core.output = [] := List.isEmpty_iff.1 hempty
    refine (servicePendingWrites_wrote suite htaken).mono ?_ fun _ _ h => h.elim
    rintro changed s' ⟨r', streamIds, hr', hwrote, hall⟩
    refine ⟨fun hchanged => ?_, fun hstill r₁ hr₁ => ?_⟩
    · subst hchanged
      have hlt := hwrote.rounds
      unfold EventLoop.rounds
      rw [hr']
      show r'.rounds < 3 * r.load + stage r.core.output
      rw [hnone]
      exact hlt
    · subst hstill
      cases hr'.symm.trans hr₁
      exact hwrote.drained rfl hall
  · have hnonempty : r.core.output ≠ [] := fun h => hsome (by rw [h]; rfl)
    rw [ends_bind]
    by_cases hsends : r.core.output.all CoreOutput.isSend = true
    · have hstage : stage r.core.output = 1 := by
        unfold stage
        rw [if_neg hnonempty, if_pos hsends]
      refine (processEach_sends r.core.output hsends).mono
        (fun _ s' hs' => ⟨fun _ => ?_, fun h => by cases h⟩) fun _ _ _ => trivial
      unfold EventLoop.rounds
      rw [show s'.connections[id]? = some r.taken from hs'.trans htaken]
      show 3 * r.load + 0 < 3 * r.load + stage r.core.output
      omega
    · have hstage : stage r.core.output = 2 := by
        unfold stage
        rw [if_neg hnonempty, if_neg hsends]
      refine (processEach_eases r.core.output).mono
        (fun _ s' hs' => ⟨fun _ => ?_, fun h => by cases h⟩) fun _ _ _ => trivial
      show s'.rounds id < 3 * r.load + stage r.core.output
      unfold EventLoop.rounds
      cases hr' : s'.connections[id]? with
      | none =>
          show 0 < 3 * r.load + stage r.core.output
          omega
      | some r' =>
          show 3 * r'.load + stage r'.core.output < 3 * r.load + stage r.core.output
          obtain ⟨r₀, hr₀, hlight⟩ := hs' r' hr'
          cases htaken.symm.trans hr₀
          have hload : r.taken.load = r.load := rfl
          rcases hlight with hlt | ⟨hle, sends, hout, hall⟩
          · have hle := stage_le r'.core.output
            omega
          · rw [show r'.core.output = sends from hout]
            have hone := stage_sends hall
            omega

/-- The loop ends before its fuel does: with any amount that covers the rounds it
comes to the same. -/
theorem processLoop_enough (fuel fuel' : Nat) (h : s.rounds id < fuel) (h' : s.rounds id < fuel') :
    processLoop suite world id fuel s = processLoop suite world id fuel' s := by
  induction fuel generalizing s fuel' with
  | zero => omega
  | succ fuel ih =>
      cases fuel' with
      | zero => omega
      | succ fuel' =>
          have hround := processRound_rounds suite world id s
          show EStateM.bind _ _ s = EStateM.bind _ _ s
          unfold EStateM.bind
          cases hrun : processRound suite world id s with
          | error e s₁ => rfl
          | ok goesOn s₁ =>
              cases goesOn with
              | false => rfl
              | true =>
                  have hless := (hround.ok hrun).1 rfl
                  exact ih (s := s₁) fuel' (by omega) (by omega)

theorem processLoop_drained (fuel : Nat) (h : s.rounds id < fuel) :
    Ends (processLoop suite world id fuel) s
      (fun _ s' => ∀ r', s'.connections[id]? = some r' → r'.Drained) fun _ _ => True := by
  induction fuel generalizing s with
  | zero => omega
  | succ fuel ih =>
      rw [processLoop, ends_bind]
      refine (processRound_rounds suite world id s).mono (fun goesOn s₁ hround => ?_)
        fun _ _ _ => trivial
      rw [ends_ite]
      refine ⟨fun hgoes => ?_, fun hstops => ?_⟩
      · have hless := hround.1 hgoes
        exact ih (by omega)
      · exact hround.2 (by simpa using hstops)

/-- Whatever came out of the core, and whoever waits on the connection, the loop
of `process_outputs` ends: it is done after at most three rounds for each read and
write that waits and three more, since more rounds change nothing, and if it ends
well there is nothing left to work off and no write that there is room for. -/
theorem outputs_worked_off (suite : Suite) (world : World) (id : Nat) (s : EventLoop) :
    (∀ fuel, s.processFuel id ≤ fuel →
      processLoop suite world id fuel s = processLoop suite world id (s.processFuel id) s) ∧
    Ends (processLoop suite world id (s.processFuel id)) s
      (fun _ s' => ∀ r, s'.connections[id]? = some r → r.core.output = [] ∧
        ∀ (streamId : Nat) p, r.pendingWrites[streamId]? = some p →
          writeStream streamId p.data p.fin r.core = .error .sendBufferFull r.core)
      fun _ _ => True := by
  have hrounds := rounds_lt_processFuel s id
  refine ⟨fun fuel hfuel => processLoop_enough _ _ (hrounds.trans_le hfuel) hrounds, ?_⟩
  exact (processLoop_drained _ hrounds).mono (fun _ s' h r hr => ⟨(h r hr).output, (h r hr).writes⟩)
    fun _ _ _ => trivial

end DartUdp.Endpoint
