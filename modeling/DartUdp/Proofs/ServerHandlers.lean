import DartUdp.Proofs.ServerSteps
import DartUdp.Server.Handlers

/-!
# What a handler does from beginning to end

A handler of the offerer's goes through at most three sections. If it keeps or
forwards its message, this is what it leaves: the pairing with nothing gone and the
offer prepared, and in the queues what goes ahead of the message and the message.
The handler of the accepter's that joins has one section that matters.

`handle_conveys` is the result for the offerer and `handle_joins` the one for the
join. `Reaches` says how far the handler has got, and the lemmas before follow it
section by section; where a message cannot be written it is `Over`.
-/

namespace DartUdp.Server

open DartUdp.Lib DartUdp.Protocol
open DartUdp.Transfer (TransferId Digest)

variable {s s' s'' : Rendezvous} {c c' : Locked} {peer : Peer}

/-! ## One task goes on -/

/-- One task has gone on: its state and the pairing's are now these, it has written
these messages, and these have been kept or forwarded. -/
structure Reaches (peer : Peer) (s s' : Rendezvous) (task : Task) (c : Locked)
    (outs : List Outgoing) (routed : List Message) : Prop where
  tasks : s'.tasks = Function.update s.tasks peer task
  locked : s'.locked = c
  queues : s'.queues = outs.foldl pushed s.queues
  routed : s'.routed = s.routed ++ routed

theorem Reaches.task {task : Task} {outs : List Outgoing} {routed : List Message}
    (h : Reaches peer s s' task c outs routed) : s'.tasks peer = task := by
  rw [h.tasks, Function.update_self]

theorem Reaches.trans {task task' : Task} {outs outs' : List Outgoing}
    {routed routed' : List Message} (h : Reaches peer s s' task c outs routed)
    (h' : Reaches peer s' s'' task' c' outs' routed') :
    Reaches peer s s'' task' c' (outs ++ outs') (routed ++ routed') where
  tasks := by rw [h'.tasks, h.tasks, Function.update_idem]
  locked := h'.locked
  queues := by rw [h'.queues, h.queues, List.foldl_append]
  routed := by rw [h'.routed, h.routed, List.append_assoc]

theorem Reaches.refl (s : Rendezvous) (peer : Peer) :
    Reaches peer s s (s.tasks peer) s.locked [] [] where
  tasks := (Function.update_eq_self ..).symm
  locked := rfl
  queues := rfl
  routed := (List.append_nil _).symm

theorem Reaches.of_read {task : Task} {outs : List Outgoing} {read routed : List Message}
    (h : Reaches peer { s with read } s' task c outs routed) :
    Reaches peer s s' task c outs routed := ⟨h.tasks, h.locked, h.queues, h.routed⟩

theorem foldl_pushed (outs : List Outgoing) (queues : Peer → List Outgoing) (q : Peer) :
    outs.foldl pushed queues q = queues q ++ toPeer q outs := by
  induction outs generalizing queues with
  | nil => exact (List.append_nil _).symm
  | cons out outs ih =>
      rw [List.foldl_cons, ih]
      by_cases hq : out.target = q
      · subst hq
        simp [pushed, toPeer]
      · simp [pushed, toPeer, hq, Function.update_of_ne (Ne.symm hq)]

/-! ## What the task writes -/

theorem goOn_writes {out : Outgoing} {rest : List Outgoing}
    (h : (s.tasks peer).sends = out :: rest) (hwritable : writable out.message) :
    Reaches peer s (s.goOn peer) { s.tasks peer with sends := rest } s.locked [out] [] := by
  have hnone : writeError out.message = none := Option.isNone_iff_eq_none.1 hwritable
  unfold Rendezvous.goOn
  simp only [h, hnone]
  exact ⟨rfl, rfl, rfl, (List.append_nil _).symm⟩

/-- A task that cannot write reports it, or stops. -/
theorem goOn_refused {out : Outgoing} {rest : List Outgoing}
    (h : (s.tasks peer).sends = out :: rest) (hrefused : writable out.message = false) :
    ∃ text, s.goOn peer = ({ s with broken := true } : Rendezvous).routeFailed peer none text := by
  obtain ⟨text, htext⟩ : ∃ text, writeError out.message = some text :=
    Option.isSome_iff_exists.1 (by simpa [writable] using hrefused)
  refine ⟨text, ?_⟩
  unfold Rendezvous.goOn Rendezvous.writeFails
  simp only [h, htext]

/-- A task that reports it listens again, and has the report to write. -/
theorem goOn_reports {out : Outgoing} {rest : List Outgoing}
    (h : (s.tasks peer).sends = out :: rest) (hrefused : writable out.message = false)
    (hreports : (s.tasks peer).reports = true) :
    ∃ error : Outgoing, error.target = peer ∧ writable error.message ∧
      Reaches peer s (s.goOn peer) { s.tasks peer with stage := .listening, sends := [error] }
        s.locked [] [] := by
  obtain ⟨text, hgoOn⟩ := goOn_refused h hrefused
  refine ⟨{ target := peer, message := errorMessage .session errorPairingExpired text
            requestId := 0 }, rfl, rfl, ?_⟩
  rw [hgoOn]
  unfold Rendezvous.routeFailed Rendezvous.report
  simp only [hreports, if_true]
  exact ⟨rfl, rfl, rfl, (List.append_nil _).symm⟩

theorem run_writes {s : Rendezvous} {sends : List Outgoing} (h : (s.tasks peer).sends = sends)
    (hwritable : Writable sends) :
    Reaches peer s (s.run (List.replicate sends.length (.goOn peer)))
      { s.tasks peer with sends := [] } s.locked sends [] := by
  induction sends generalizing s with
  | nil =>
      have hself := Reaches.refl s peer
      rwa [show s.tasks peer = { s.tasks peer with sends := [] } by rw [← h]] at hself
  | cons out rest ih =>
      have hstep := goOn_writes h (hwritable out List.mem_cons_self)
      have hrest := ih (by rw [hstep.task]) fun out hout =>
        hwritable out (List.mem_cons_of_mem _ hout)
      rw [hstep.task, hstep.locked] at hrest
      exact hstep.trans hrest

theorem writeAll_reaches (hwritable : Writable (s.tasks peer).sends) :
    Reaches peer s (s.writeAll peer) { s.tasks peer with sends := [] } s.locked
      (s.tasks peer).sends [] := run_writes rfl hwritable

theorem lockNext_of_ended
    (h : (s.tasks peer).stage = .listening ∨ (s.tasks peer).stage = .stopped) :
    s.lockNext peer = s := by
  unfold Rendezvous.lockNext
  rcases h with h | h
  · simp only [h]
  · simp only [h]

/-- A task that has ended and written everything stays as it is. -/
theorem goOn_idle (hstage : (s.tasks peer).stage = .listening ∨ (s.tasks peer).stage = .stopped)
    (hsends : (s.tasks peer).sends = []) : s.goOn peer = s := by
  unfold Rendezvous.goOn
  simp only [hsends]
  exact lockNext_of_ended hstage

theorem run_idle (hstage : (s.tasks peer).stage = .listening ∨ (s.tasks peer).stage = .stopped)
    (hsends : (s.tasks peer).sends = []) (n : Nat) :
    s.run (List.replicate n (.goOn peer)) = s := by
  induction n with
  | zero => rfl
  | succ n ih =>
      have hstep : s.step (.goOn peer) = s := goOn_idle hstage hsends
      show (s.step (.goOn peer)).run (List.replicate n (.goOn peer)) = s
      rw [hstep]
      exact ih

/-- A task that reports nothing writes as far as it can, and stops where it cannot. -/
theorem run_writes_or_stops {s : Rendezvous} {sends : List Outgoing}
    (h : (s.tasks peer).sends = sends) (hreports : (s.tasks peer).reports = false) :
    ∃ task, Reaches peer s (s.run (List.replicate sends.length (.goOn peer))) task s.locked
        (sends.takeWhile fun out => writable out.message) [] ∧ task.sends = [] ∧
      (task = { s.tasks peer with sends := [] } ∨ task.stage = .stopped) := by
  induction sends generalizing s with
  | nil =>
      have hself := Reaches.refl s peer
      rw [show s.tasks peer = { s.tasks peer with sends := [] } by rw [← h]] at hself
      exact ⟨_, hself, rfl, .inl rfl⟩
  | cons out rest ih =>
      cases hwritable : writable out.message with
      | true =>
          have hstep := goOn_writes h hwritable
          obtain ⟨task, hrest, hsends, htask⟩ := ih (s := s.goOn peer) (by rw [hstep.task])
            (by rw [hstep.task]; exact hreports)
          rw [hstep.locked] at hrest
          rw [hstep.task] at htask
          rw [List.takeWhile_cons_of_pos (by simpa using hwritable)]
          exact ⟨task, hstep.trans hrest, hsends, htask⟩
      | false =>
          obtain ⟨text, hgoOn⟩ := goOn_refused h hwritable
          have hstep : Reaches peer s (s.goOn peer)
              { s.tasks peer with sends := [], stage := .stopped } s.locked [] [] := by
            rw [hgoOn]
            unfold Rendezvous.routeFailed
            simp only [hreports, Bool.false_eq_true, if_false]
            exact ⟨rfl, rfl, rfl, (List.append_nil _).symm⟩
          have hidle := @run_idle (s.goOn peer) peer (.inr (by rw [hstep.task]))
            (by rw [hstep.task]) rest.length
          rw [List.takeWhile_cons_of_neg (by simpa using hwritable)]
          refine ⟨{ s.tasks peer with sends := [], stage := .stopped }, ?_, rfl, .inr rfl⟩
          show Reaches peer s ((s.goOn peer).run (List.replicate rest.length (.goOn peer))) _ _ _ _
          rw [hidle]
          exact hstep

/-- The task has ended, and at most written since. -/
structure Rests (peer : Peer) (s s' : Rendezvous) : Prop where
  stage : (s'.tasks peer).stage = .listening ∨ (s'.tasks peer).stage = .stopped
  locked : s'.locked = s.locked
  routed : s'.routed = s.routed

theorem Rests.trans (h : Rests peer s s') (h' : Rests peer s' s'') : Rests peer s s'' :=
  ⟨h'.stage, h'.locked.trans h.locked, h'.routed.trans h.routed⟩

theorem report_rests (s : Rendezvous) (peer : Peer) (code : UInt32) (text : Text) :
    Rests peer s (s.report peer code text) := by
  unfold Rendezvous.report Rendezvous.setTask
  exact ⟨.inl (by simp), rfl, rfl⟩

theorem routeFailed_rests (s : Rendezvous) (peer : Peer) (code : Option UInt32) (text : Text) :
    Rests peer s (s.routeFailed peer code text) := by
  unfold Rendezvous.routeFailed
  split
  · exact report_rests ..
  · exact ⟨.inr (by simp [Rendezvous.setTask]), rfl, rfl⟩

section

variable (h : (s.tasks peer).stage = .listening ∨ (s.tasks peer).stage = .stopped)

include h

theorem goOn_rests : Rests peer s (s.goOn peer) := by
  cases hsends : (s.tasks peer).sends with
  | nil =>
      rw [goOn_idle h hsends]
      exact ⟨h, rfl, rfl⟩
  | cons out rest =>
      cases hwritable : writable out.message with
      | true =>
          have hstep := goOn_writes hsends hwritable
          refine ⟨?_, hstep.locked, hstep.routed.trans (List.append_nil _)⟩
          rw [hstep.task]
          exact h
      | false =>
          obtain ⟨text, hgoOn⟩ := goOn_refused hsends hwritable
          have hfailed := routeFailed_rests { s with broken := true } peer none text
          rw [← hgoOn] at hfailed
          exact ⟨hfailed.stage, hfailed.locked, hfailed.routed⟩

theorem writeAll_rests : Rests peer s (s.writeAll peer) := by
  unfold Rendezvous.writeAll
  generalize (s.tasks peer).sends.length = n
  induction n generalizing s with
  | zero => exact ⟨h, rfl, rfl⟩
  | succ n ih =>
      have hstep := goOn_rests h
      exact hstep.trans (ih hstep.stage)

theorem nextSection_rests : Rests peer s (s.nextSection peer) :=
  (goOn_rests h).trans (writeAll_rests (goOn_rests h).stage)

end

theorem Rests.writeAll (h : Rests peer s s') : Rests peer s (s'.writeAll peer) :=
  h.trans (writeAll_rests h.stage)

theorem Rests.nextSection (h : Rests peer s s') : Rests peer s (s'.nextSection peer) :=
  h.trans (nextSection_rests h.stage)

/-- The handler has ended, and kept or forwarded nothing since. -/
structure Over (peer : Peer) (s : Rendezvous) (routed : List Message) : Prop where
  stage : (s.tasks peer).stage = .listening ∨ (s.tasks peer).stage = .stopped
  routed : s.routed = routed

theorem Rests.over (h : Rests peer s s') : Over peer s' s.routed := ⟨h.stage, h.routed⟩

theorem Over.writeAll {routed : List Message} (h : Over peer s routed) :
    Over peer (s.writeAll peer) routed := by
  have hrests := (writeAll_rests h.stage).over
  rwa [h.routed] at hrests

theorem Over.nextSection {routed : List Message} (h : Over peer s routed) :
    Over peer (s.nextSection peer) routed := by
  have hrests := (nextSection_rests h.stage).over
  rwa [h.routed] at hrests

/-- A section, and the writes that follow. -/
theorem nextSection_reaches {task : Task} {outs : List Outgoing} {routed : List Message}
    (h : Reaches peer s (s.goOn peer) task c outs routed) (hwritable : Writable task.sends) :
    Reaches peer s (s.nextSection peer) { task with sends := [] } c
      (outs ++ task.sends) routed := by
  have hwrites := @writeAll_reaches (s.goOn peer) peer (by rw [h.task]; exact hwritable)
  rw [h.task, h.locked] at hwrites
  have hall := h.trans hwrites
  rwa [List.append_nil] at hall

/-! ## The sections of the offerer's handler -/

/-- The task of the offerer, at a stage and with these writes to come. -/
structure OffererAt (task : Task) (stage : Stage) (sends : List Outgoing) : Prop where
  role : task.role = some .offerer
  stage : task.stage = stage
  sends : task.sends = sends

theorem OffererAt.nextSection {task : Task} {stage : Stage} {sends outs : List Outgoing}
    {routed : List Message} (htask : OffererAt task stage sends) (hwritable : Writable sends)
    (h : Reaches peer s (s.goOn peer) task c outs routed) :
    ∃ task', OffererAt task' stage [] ∧
      Reaches peer s (s.nextSection peer) task' c (outs ++ sends) routed := by
  have hsection := nextSection_reaches h (by rw [htask.sends]; exact hwritable)
  rw [htask.sends] at hsection
  exact ⟨{ task with sends := [] }, ⟨htask.role, htask.stage, rfl⟩, hsection⟩

theorem OffererAt.writeAll {task : Task} {stage : Stage} {sends outs : List Outgoing}
    {routed : List Message} (htask : OffererAt task stage sends) (hwritable : Writable sends)
    (h : Reaches peer s s' task c outs routed) :
    ∃ task', OffererAt task' stage [] ∧ task'.reports = task.reports ∧
      Reaches peer s (s'.writeAll peer) task' c (outs ++ sends) routed := by
  have hwrites := @writeAll_reaches s' peer
    (by rw [h.task, htask.sends]; exact hwritable)
  rw [h.task, h.locked, htask.sends] at hwrites
  have hall := h.trans hwrites
  rw [List.append_nil] at hall
  exact ⟨{ task with sends := [] }, ⟨htask.role, htask.stage, rfl⟩, rfl, hall⟩

theorem TicketSends.writable {state : PairingState} {t : TransferId} {d : Digest}
    {requestId : UInt64} {sends : List Outgoing} (h : TicketSends state t d requestId sends) :
    Writable sends := by
  obtain ⟨expiresAt, offererTicket, accepterTicket, rfl⟩ := h
  intro out hout
  rcases List.mem_cons.1 hout with rfl | hout
  · rfl
  · obtain ⟨a, -, rfl⟩ := List.mem_map.1 hout
    rfl

theorem RouteSends.writable {state : PairingState} {t : TransferId} {requestId : UInt64}
    {sends : List Outgoing} (h : RouteSends state t requestId sends) : Writable sends := by
  obtain ⟨authorization, rfl⟩ := h
  intro out hout
  simp only [List.cons_append, List.mem_cons, List.mem_append, List.mem_map] at hout
  rcases hout with rfl | ⟨a, -, rfl⟩ | rfl | ⟨a, -, rfl⟩
  · rfl
  · rfl
  · rfl
  · rfl

theorem startRoute_offerer {message : Message} {requestId : UInt64}
    (hrole : (s.tasks peer).role = some .offerer) (hsends : (s.tasks peer).sends = []) :
    Over peer (s.startRoute peer .offerer message requestId) s.routed ∨
    (offered message = none ∧ ∃ task stage, OffererAt task stage [] ∧
      (writable message = false → task.reports = true) ∧
      Reaches peer s (s.startRoute peer .offerer message requestId) task s.locked [] [] ∧
      (stage = .targeting message requestId ∨ stage = .authorizing message requestId ∧
        ∃ t token expiresAt, message = .pairing (.pathCheckAuthorization t token expiresAt))) ∨
    ∃ t d sends c task, offered message = some (t, d) ∧ Kept s.locked c ∧
      (c.state.pathAuthorizations t).isSome ∧ c.state.digestOf t = some d ∧
      TicketSends s.locked.state t d requestId sends ∧
      OffererAt task (.targeting message requestId) sends ∧
      Reaches peer s (s.startRoute peer .offerer message requestId) task c [] [] := by
  have hallowed : validateMessageRole .offerer message = .ok () := by
    unfold validateMessageRole
    cases message with
    | pairing m => cases m <;> rfl
    | transfer m => cases m <;> rfl
    | path m => cases m <;> rfl
  unfold Rendezvous.startRoute Rendezvous.setTask
  simp only [hallowed]
  split
  · next t digest _ _ _ =>
      cases hrun : offerTickets t digest requestId s.locked with
      | error e c =>
          refine .inl ?_
          simp only [Rendezvous.enter, after, Lib.failure, hrun]
          exact (routeFailed_rests ..).over
      | ok sends c =>
          obtain ⟨hkept, hpath, hdigest, htickets⟩ := (offerTickets_kept _ _ _).ok hrun
          refine .inr (.inr ⟨t, digest, sends, c,
            { s.tasks peer with sends, stage := .targeting _ requestId, reports := false },
            rfl, hkept, hpath, hdigest, htickets,
            ⟨hrole, rfl, rfl⟩, ?_⟩)
          simp only [Rendezvous.enter, after, Lib.failure, hrun, Function.update_idem]
          exact ⟨rfl, rfl, rfl, (List.append_nil _).symm⟩
  · next t token expiresAt =>
    refine .inr (.inl ⟨rfl,
      { s.tasks peer with stage := .authorizing _ requestId, reports := false }, _,
      ⟨hrole, rfl, hsends⟩, fun h => (by cases h), ?_, .inr ⟨rfl, t, token, expiresAt, rfl⟩⟩)
    simp only [Function.update_idem]
    exact ⟨rfl, rfl, rfl, (List.append_nil _).symm⟩
  · next hoffer _ =>
      have hnone : offered message = none := by
        unfold offered
        split
        · exact (hoffer _ _ _ _ _ rfl).elim
        · rfl
      simp only [Function.update_idem]
      cases message with
      | pairing m =>
          exact .inr (.inl ⟨hnone, { s.tasks peer with
              stage := .targeting (.pairing m) requestId, reports := false },
            _, ⟨hrole, rfl, hsends⟩, fun h => (by cases h),
            ⟨rfl, rfl, rfl, (List.append_nil _).symm⟩, .inl rfl⟩)
      | transfer | path =>
          exact .inr (.inl ⟨hnone, { s.tasks peer with
              stage := .targeting _ requestId, reports := true },
            _, ⟨hrole, rfl, hsends⟩, fun _ => rfl, ⟨rfl, rfl, rfl, (List.append_nil _).symm⟩,
            .inl rfl⟩)

section

variable {message : Message} {requestId : UInt64}

theorem goOn_authorizing {t : TransferId} {token : CheckToken} {expiresAt : UInt64}
    (hmessage : message = .pairing (.pathCheckAuthorization t token expiresAt))
    (h : OffererAt (s.tasks peer) (.authorizing message requestId) []) :
    Over peer (s.goOn peer) s.routed ∨
      ∃ task, OffererAt task (.targeting message requestId) [] ∧
        Reaches peer s (s.goOn peer) task s.locked [] [] := by
  unfold Rendezvous.goOn
  simp only [h.sends, Rendezvous.lockNext, h.stage, hmessage]
  have hsame := validatePathAuthorization_same (c := s.locked) t token expiresAt
  cases hrun : validatePathAuthorization t token expiresAt s.locked with
  | error e c =>
      refine .inl ?_
      rw [enter_error hrun]
      exact (routeFailed_rests ..).over
  | ok _ c =>
      obtain rfl := hsame.ok hrun
      rw [enter_ok hrun]
      refine .inr ⟨{ s.tasks peer with sends := [], stage := .targeting _ requestId },
        ⟨h.role, rfl, rfl⟩, ?_⟩
      exact ⟨rfl, rfl, rfl, (List.append_nil _).symm⟩

theorem goOn_targeting (h : OffererAt (s.tasks peer) (.targeting message requestId) []) :
    Over peer (s.goOn peer) s.routed ∨
    (s.locked.state.accepter = none ∧ ∃ task, OffererAt task .listening [] ∧
      Reaches peer s (s.goOn peer) task { s.locked with state := { s.locked.state with
        pendingForAccepter := s.locked.state.pendingForAccepter ++ [(message, requestId)] } }
        [] [message]) ∨
    ∃ a number task, s.locked.state.accepter = some a ∧
      Reaches peer s (s.goOn peer) task s.locked [] [message] ∧
      (offered message = none ∧ task.reports = (s.tasks peer).reports ∧
          OffererAt task .listening [{ target := a, message, requestId, number }] ∨
        ∃ t d, offered message = some (t, d) ∧
          OffererAt task (.offering message t requestId a number) []) := by
  unfold Rendezvous.goOn
  simp only [h.sends, Rendezvous.lockNext, h.stage, h.role, Rendezvous.target]
  have hends := routeTarget_ends (c := s.locked) s.config .offerer message requestId
  cases hrun : routeTarget s.config .offerer message requestId s.locked with
  | error e c =>
      refine .inl ?_
      simp only []
      rw [enter_error hrun]
      exact (routeFailed_rests ..).over
  | ok target c =>
      have htarget := hends.ok hrun
      simp only []
      rw [enter_ok hrun]
      cases target with
      | none =>
          obtain ⟨-, hvacant, rfl⟩ := htarget
          refine .inr (.inl ⟨hvacant, { role := some .offerer, reports := (s.tasks peer).reports },
            ⟨rfl, rfl, rfl⟩, ?_⟩)
          exact ⟨rfl, rfl, rfl, rfl⟩
      | some a =>
          obtain ⟨rfl, ⟨-, haccepter⟩ | ⟨hrole, -⟩⟩ := htarget
          · cases hoffer : offered message with
            | none =>
                refine .inr (.inr ⟨a, some s.routed.length, {
                  role := some .offerer
                  sends := [{ target := a, message, requestId, number := some s.routed.length }]
                  reports := (s.tasks peer).reports }, haccepter, ?_,
                  .inl ⟨rfl, rfl, rfl, rfl, rfl⟩⟩)
                simp only [if_true, lastSend_offerer]
                exact ⟨rfl, rfl, rfl, rfl⟩
            | some o =>
                refine .inr (.inr ⟨a, some s.routed.length, {
                  role := some .offerer
                  stage := .offering message o.1 requestId a (some s.routed.length)
                  reports := (s.tasks peer).reports }, haccepter, ?_,
                  .inr ⟨o.1, o.2, rfl, rfl, rfl, rfl⟩⟩)
                exact ⟨rfl, rfl, rfl, rfl⟩
          · cases hrole

theorem goOn_offering {t : TransferId} {a : Peer} {number : Option Nat}
    (h : OffererAt (s.tasks peer) (.offering message t requestId a number) [])
    (hpath : (s.locked.state.pathAuthorizations t).isSome) :
    ∃ ahead task, RouteSends s.locked.state t requestId ahead ∧
      OffererAt task .listening (ahead ++ [{ target := a, message, requestId, number }]) ∧
      Reaches peer s (s.goOn peer) task s.locked [] [] := by
  unfold Rendezvous.goOn
  simp only [h.sends, Rendezvous.lockNext, h.stage, h.role]
  cases hrun : offerRoute t requestId s.locked with
  | error e c =>
      rw [((offerRoute_ends _ _).error hrun).2] at hpath
      cases hpath
  | ok ahead c =>
      obtain ⟨rfl, hroute⟩ := (offerRoute_ends _ _).ok hrun
      simp only []
      rw [enter_ok hrun, lastSend_offerer]
      refine ⟨ahead, {
        role := some .offerer
        sends := ahead ++ [{ target := a, message, requestId, number }]
        reports := (s.tasks peer).reports }, hroute, ⟨rfl, rfl, rfl⟩, ?_⟩
      exact ⟨rfl, rfl, rfl, (List.append_nil _).symm⟩

end

theorem nextSection_idle
    (hstage : (s.tasks peer).stage = .listening ∨ (s.tasks peer).stage = .stopped)
    (hsends : (s.tasks peer).sends = []) :
    Reaches peer s (s.nextSection peer) (s.tasks peer) s.locked [] [] := by
  have hsection := nextSection_reaches (s := s)
    (by rw [goOn_idle hstage hsends]; exact Reaches.refl s peer)
    (by rw [hsends]; exact Writable.nil)
  rw [hsends] at hsection
  have hsame : { s.tasks peer with sends := [] } = s.tasks peer := by rw [← hsends]
  rwa [hsame] at hsection

/-! ## The handler of the offerer -/

/-- What is written for a message of the offerer when there is an accepter. -/
def Forwards (state : PairingState) (accepter : Peer) (message : Message) (requestId : UInt64)
    (outs : List Outgoing) : Prop :=
  ∃ number, offered message = none ∧
      outs = [{ target := accepter, message, requestId, number }] ∨
    ∃ t d tickets ahead, offered message = some (t, d) ∧
      TicketSends state t d requestId tickets ∧ RouteSends state t requestId ahead ∧
      outs = tickets ++ (ahead ++ [{ target := accepter, message, requestId, number }])

theorem RouteSends.kept {t : TransferId} {requestId : UInt64} {sends : List Outgoing}
    (hkept : Kept c c') (h : RouteSends c'.state t requestId sends) :
    RouteSends c.state t requestId sends := by
  obtain ⟨authorization, rfl⟩ := h
  refine ⟨authorization, ?_⟩
  rw [hkept.offerer, hkept.accepter, hkept.names.2.1, hkept.names.2.2]

theorem TicketSends.to_offerer {state : PairingState} {t : TransferId} {d : Digest}
    {requestId : UInt64} {sends : List Outgoing} (h : TicketSends state t d requestId sends)
    (hvacant : state.accepter = none) : ∀ out ∈ sends, out.target = state.offerer := by
  obtain ⟨expiresAt, offererTicket, accepterTicket, rfl⟩ := h
  rw [hvacant]
  intro out hout
  rw [List.mem_singleton.1 hout]

/-- A handler that has kept or forwarded its message has kept the pairing's state,
prepared the transfer of an offer, and written what goes with the message. If the
message cannot be written, its sender is told. -/
def Conveys (peer : Peer) (s s' : Rendezvous) (message : Message) (requestId : UInt64) : Prop :=
  ∃ task c c₀ outs, OffererAt task .listening [] ∧ Reaches peer s s' task c outs [message] ∧
    Kept s.locked c₀ ∧ (∀ t d, offered message = some (t, d) → c₀.state.digestOf t = some d) ∧
    (s.locked.state.accepter = none ∧ (∀ out ∈ outs, out.target = s.locked.state.offerer) ∧
        c = { c₀ with state := { c₀.state with
          pendingForAccepter := c₀.state.pendingForAccepter ++ [(message, requestId)] } } ∨
      ∃ a, s.locked.state.accepter = some a ∧ c = c₀ ∧
        (writable message ∧ Forwards s.locked.state a message requestId outs ∨
          writable message = false ∧ ∀ out ∈ outs, out.target = peer))

section

variable {message : Message} {requestId : UInt64}

theorem Over.not_routed {l : List Message} (h : Over peer s l)
    (hrouted : s.routed = l ++ [message]) : False := by
  rw [h.routed] at hrouted
  have hlength := congrArg List.length hrouted
  simp at hlength

/-- A section of a message that is no offer, from the target on, and one more if the
message cannot be written. -/
theorem plain_target (h : OffererAt (s.tasks peer) (.targeting message requestId) [])
    (hplain : offered message = none)
    (hreports : writable message = false → (s.tasks peer).reports = true) :
    Over peer (s.nextSection peer) s.routed ∨
      Conveys peer s (s.nextSection peer) message requestId ∨
      writable message = false ∧
        Conveys peer s ((s.nextSection peer).nextSection peer) message requestId := by
  have hnone : ∀ t d, offered message = some (t, d) → s.locked.state.digestOf t = some d := by
    intro t d hoffer
    rw [hplain] at hoffer
    cases hoffer
  rcases goOn_targeting h with hover | ⟨hvacant, task, htask, hreaches⟩ |
    ⟨a, number, task, haccepter, hreaches, ⟨-, hsame, htask⟩ | ⟨t, d, hoffer, -⟩⟩
  · exact .inl hover.writeAll
  · obtain ⟨task', htask', hsection⟩ := htask.nextSection Writable.nil hreaches
    exact .inr (.inl ⟨task', _, s.locked, _, htask', hsection, Std.Refl.refl _, hnone,
      .inl ⟨hvacant, fun out hout => (by cases hout), rfl⟩⟩)
  · cases hwritable : writable message with
    | true =>
        have hall : Writable [{ target := a, message, requestId, number }] := by
          intro out hout
          rw [List.mem_singleton.1 hout]
          exact hwritable
        obtain ⟨task', htask', hsection⟩ := htask.nextSection hall hreaches
        exact .inr (.inl ⟨task', _, s.locked, _, htask', hsection, Std.Refl.refl _, hnone,
          .inr ⟨a, haccepter, rfl, .inl ⟨hwritable, number, .inl ⟨hplain, rfl⟩⟩⟩⟩)
    | false =>
        have hat : ((s.goOn peer).tasks peer) = task := hreaches.task
        have hwrites : s.nextSection peer = (s.goOn peer).goOn peer := by
          unfold Rendezvous.nextSection Rendezvous.writeAll
          rw [hat, htask.sends]
          rfl
        obtain ⟨error, htarget, herror, hreport⟩ := @goOn_reports (s.goOn peer) peer _ _
          (by rw [hat]; exact htask.sends) hwritable (by rw [hat, hsame]; exact hreports hwritable)
        rw [hat, hreaches.locked, ← hwrites] at hreport
        have hbegun := hreaches.trans hreport
        have hwritten := @goOn_writes (s.nextSection peer) peer error []
          (by rw [hbegun.task]) herror
        rw [hbegun.task, hbegun.locked] at hwritten
        have hsection := hbegun.trans (nextSection_reaches hwritten Writable.nil)
        simp only [List.append_nil, List.nil_append] at hsection
        refine .inr (.inr ⟨rfl, { task with sends := [], stage := .listening }, _, s.locked, _,
          ⟨htask.role, rfl, rfl⟩, hsection, Std.Refl.refl _, hnone,
          .inr ⟨a, haccepter, rfl, .inr ⟨hwritable, ?_⟩⟩⟩)
        intro out hout
        obtain rfl : out = error := by simpa using hout
        exact htarget
  · rw [hplain] at hoffer
    cases hoffer

/-- The section of an offer that finds the target, and the one that gathers what goes
ahead of it. -/
theorem offer_target {t : TransferId} {d : Digest} (hoffer : offered message = some (t, d))
    (h : OffererAt (s.tasks peer) (.targeting message requestId) [])
    (hpath : (s.locked.state.pathAuthorizations t).isSome) :
    Over peer (s.nextSection peer) s.routed ∨
    (s.locked.state.accepter = none ∧ ∃ task, OffererAt task .listening [] ∧
      Reaches peer s (s.nextSection peer) task { s.locked with state := { s.locked.state with
        pendingForAccepter := s.locked.state.pendingForAccepter ++ [(message, requestId)] } }
        [] [message]) ∨
    ∃ a number task ahead, s.locked.state.accepter = some a ∧ OffererAt task .listening [] ∧
      RouteSends s.locked.state t requestId ahead ∧
      Reaches peer s ((s.nextSection peer).nextSection peer) task s.locked
        (ahead ++ [{ target := a, message, requestId, number }]) [message] := by
  rcases goOn_targeting h with hover | ⟨hvacant, task, htask, hreaches⟩ |
    ⟨a, number, task, haccepter, hreaches, ⟨hplain, -⟩ | ⟨t', d', hoffer', htask⟩⟩
  · exact .inl hover.writeAll
  · obtain ⟨task', htask', hsection⟩ := htask.nextSection Writable.nil hreaches
    exact .inr (.inl ⟨hvacant, task', htask', hsection⟩)
  · rw [hoffer] at hplain
    cases hplain
  · rw [hoffer] at hoffer'
    cases hoffer'
    obtain ⟨task₁, htask₁, hsection⟩ := htask.nextSection Writable.nil hreaches
    have hat : OffererAt ((s.nextSection peer).tasks peer) (.offering message t requestId a number)
        [] := by
      rw [hsection.task]
      exact htask₁
    obtain ⟨ahead, task', hroute, htask', hreaches'⟩ :=
      goOn_offering hat (by rw [hsection.locked]; exact hpath)
    rw [hsection.locked] at hroute hreaches'
    have hwritable : Writable (ahead ++ [{ target := a, message, requestId, number }]) := by
      refine hroute.writable.append fun out hout => ?_
      rw [List.mem_singleton.1 hout]
      exact writable_of_offered hoffer
    obtain ⟨task₂, htask₂, hsection'⟩ := htask'.nextSection hwritable hreaches'
    exact .inr (.inr ⟨a, number, task₂, ahead, haccepter, htask₂, hroute, hsection.trans hsection'⟩)

/-- One more section of a task that listens changes nothing. -/
theorem Conveys.nextSection (h : Conveys peer s s' message requestId) :
    Conveys peer s (s'.nextSection peer) message requestId := by
  obtain ⟨task, c, c₀, outs, htask, hreaches, hrest⟩ := h
  have hidle := nextSection_idle (.inl (by rw [hreaches.task]; exact htask.stage))
    (by rw [hreaches.task]; exact htask.sends)
  rw [hreaches.task, hreaches.locked] at hidle
  have hall := hreaches.trans hidle
  rw [List.append_nil] at hall
  exact ⟨task, c, c₀, outs, htask, hall, hrest⟩

theorem Conveys.of_reaches {task : Task} (h : Conveys peer s' s'' message requestId)
    (hreaches : Reaches peer s s' task s.locked [] []) :
    Conveys peer s s'' message requestId := by
  obtain ⟨task', c, c₀, outs, htask, hreaches', hrest⟩ := h
  rw [hreaches.locked] at hrest
  exact ⟨task', c, c₀, outs, htask, hreaches.trans hreaches', hrest⟩

theorem receive_offerer (h : OffererAt (s.tasks peer) .listening []) :
    s.receive peer message requestId =
      ({ s with read := s.read ++ [message] } : Rendezvous).startRoute peer .offerer message
        requestId := by
  unfold Rendezvous.receive
  simp only [h.role, h.sends, h.stage, ne_eq, not_true_eq_false, or_self, if_false, if_true]

/-- What the offerer's handler does if it keeps or forwards its message. -/
theorem handle_conveys (h : OffererAt (s.tasks peer) .listening [])
    (hrouted : (s.handle peer message requestId).routed = s.routed ++ [message]) :
    Conveys peer s (s.handle peer message requestId) message requestId := by
  unfold Rendezvous.handle at hrouted ⊢
  rw [receive_offerer h] at hrouted ⊢
  generalize hs₁ : ({ s with read := s.read ++ [message] } : Rendezvous).startRoute peer .offerer
    message requestId = s₁ at hrouted ⊢
  have hstart := @startRoute_offerer { s with read := s.read ++ [message] } peer message requestId
    h.role h.sends
  rw [hs₁] at hstart
  rcases hstart with hover | ⟨hplain, task, stage, htask, hreports, hreaches, hstage⟩ |
    ⟨t, d, sends, c, task, hoffer, hkept, hpath, hdigest, htickets, htask, hreaches⟩
  · exact (hover.writeAll.nextSection.nextSection.nextSection.not_routed hrouted).elim
  · obtain ⟨task₁, htask₁, hsame₁, hwritten⟩ := htask.writeAll Writable.nil hreaches.of_read
    have hat : OffererAt ((s₁.writeAll peer).tasks peer) stage [] := by
      rw [hwritten.task]
      exact htask₁
    have hreports₁ (h : writable message = false) :
        ((s₁.writeAll peer).tasks peer).reports = true := by
      rw [hwritten.task, hsame₁]
      exact hreports h
    have hsame : (s₁.writeAll peer).routed = s.routed := hwritten.routed.trans (List.append_nil _)
    rcases hstage with rfl | ⟨rfl, t, token, expiresAt, hmessage⟩
    · rcases plain_target hat hplain hreports₁ with hover | hconveys | ⟨-, hconveys⟩
      · rw [hsame] at hover
        exact (hover.nextSection.nextSection.not_routed hrouted).elim
      · exact (hconveys.nextSection.nextSection).of_reaches hwritten
      · exact hconveys.nextSection.of_reaches hwritten
    · rcases goOn_authorizing hmessage hat with hover | ⟨task₂, htask₂, hreaches₂⟩
      · rw [hsame] at hover
        exact (hover.writeAll.nextSection.nextSection.not_routed hrouted).elim
      · obtain ⟨task₃, htask₃, hsection⟩ := htask₂.nextSection Writable.nil hreaches₂
        rw [hwritten.locked] at hsection
        have hbegun := hwritten.trans hsection
        have hwritable : writable message := by
          rw [hmessage]
          rfl
        rcases plain_target (by rw [hbegun.task]; exact htask₃) hplain
          (fun h => by rw [hwritable] at h; cases h) with hover | hconveys | ⟨hnot, -⟩
        · rw [hbegun.routed, List.append_nil, List.append_nil] at hover
          exact (hover.nextSection.not_routed hrouted).elim
        · exact hconveys.nextSection.of_reaches hbegun
        · rw [hwritable] at hnot
          cases hnot
  · obtain ⟨task₁, htask₁, -, hwritten⟩ := htask.writeAll htickets.writable hreaches.of_read
    have hat : OffererAt ((s₁.writeAll peer).tasks peer) (.targeting message requestId) [] := by
      rw [hwritten.task]
      exact htask₁
    have hsame : (s₁.writeAll peer).routed = s.routed := hwritten.routed.trans (List.append_nil _)
    rcases offer_target hoffer hat (by rw [hwritten.locked]; exact hpath) with hover |
      ⟨hvacant, task₂, htask₂, hsection⟩ |
      ⟨a, number, task₂, ahead, haccepter, htask₂, hroute, hsections⟩
    · rw [hsame] at hover
      exact (hover.nextSection.nextSection.not_routed hrouted).elim
    · rw [hwritten.locked] at hvacant hsection
      have hvacant' : s.locked.state.accepter = none := hkept.accepter.symm.trans hvacant
      have hconveys : Conveys peer s ((s₁.writeAll peer).nextSection peer) message requestId := by
        refine ⟨task₂, _, c, _, htask₂, hwritten.trans hsection, hkept, ?_,
          .inl ⟨hvacant', ?_, rfl⟩⟩
        · intro t' d' hoffer'
          rw [hoffer] at hoffer'
          cases hoffer'
          exact hdigest
        · rw [List.nil_append, List.append_nil]
          exact htickets.to_offerer hvacant'
      exact hconveys.nextSection.nextSection
    · rw [hwritten.locked] at haccepter hroute hsections
      have hconveys : Conveys peer s (((s₁.writeAll peer).nextSection peer).nextSection peer)
          message requestId := by
        refine ⟨task₂, _, c, _, htask₂, hwritten.trans hsections, hkept, ?_,
          .inr ⟨a, hkept.accepter.symm.trans haccepter, rfl,
            .inl ⟨writable_of_offered hoffer, number, .inr ⟨t, d, sends, ahead, hoffer, htickets,
              hroute.kept hkept, ?_⟩⟩⟩⟩
        · intro t' d' hoffer'
          rw [hoffer] at hoffer'
          cases hoffer'
          exact hdigest
        · rw [List.nil_append]
      exact hconveys.nextSection

end

/-! ## The handler of the accepter -/

/-- A handler of the accepter's that has joined has taken over what was pending, and
has written it up to the first message that cannot be written. -/
theorem handle_joins {code : PairingCode} {client : ClientInstanceId} {key : Vector UInt8 32}
    {requestId : UInt64} (hrole : (s.tasks peer).role = none) (hsends : (s.tasks peer).sends = [])
    (hstage : (s.tasks peer).stage = .listening) (hreports : (s.tasks peer).reports = false)
    (hvacant : s.locked.state.accepter = none) (hworks : s.locked.Works)
    (hprepared : ∀ t, offeredIn s.locked.state.pendingForAccepter t →
      (s.locked.state.transfers t).isSome)
    (hjoined :
      (s.handle peer (.pairing (.joinPairing code client key)) requestId).locked.state.accepter =
        some peer) :
    ∃ task c outs,
      Reaches peer s (s.handle peer (.pairing (.joinPairing code client key)) requestId) task c
        (outs.takeWhile fun out => writable out.message) [] ∧
      Joins peer s.locked c ∧ Delivers peer s.locked s.locked.state.pendingForAccepter outs := by
  unfold Rendezvous.handle at hjoined ⊢
  generalize hs₁ : s.receive peer (.pairing (.joinPairing code client key)) requestId = s₁
    at hjoined ⊢
  unfold Rendezvous.receive at hs₁
  simp only [hrole, hsends, hstage, ne_eq, not_true_eq_false, or_self, if_false] at hs₁
  split at hs₁
  · have hknock : Reaches peer s s₁ { s.tasks peer with
        role := none, sends := [], stage := .joining requestId } s.locked [] [] := by
      subst hs₁
      exact ⟨rfl, rfl, rfl, (List.append_nil _).symm⟩
    have hwrites := @writeAll_reaches s₁ peer
      (by rw [hknock.task]; exact Writable.nil)
    rw [hknock.task, hknock.locked] at hwrites
    have hbegun := hknock.trans hwrites
    generalize hs₂ : s₁.writeAll peer = s₂ at hjoined hbegun ⊢
    have hends := joinPairing_ends s₂.config peer requestId (c := s.locked) hprepared
    have hgoOn : s₂.goOn peer = s₂.lockNext peer := by
      unfold Rendezvous.goOn
      simp only [hbegun.task]
    cases hrun : joinPairing s₂.config peer requestId s.locked with
    | error e c =>
        -- the accepter is as before, and what follows only writes
        have hkept : Kept s.locked c := by
          rcases hends.error hrun with hkept | ⟨-, hlacks⟩
          · exact hkept
          · exact (hlacks.2 hworks).elim
        have hreport : Rests peer (s₂.enter (joinPairing s₂.config peer requestId))
            (s₂.goOn peer) := by
          rw [hgoOn]
          simp only [Rendezvous.lockNext, hbegun.task, hbegun.locked, hrun]
          exact report_rests ..
        have hrests := hreport.writeAll.nextSection.nextSection
        have hlocked : (s₂.enter (joinPairing s₂.config peer requestId)).locked = c := by
          simp only [Rendezvous.enter, after, hbegun.locked, hrun]
        have haccepter := congrArg (fun c => c.state.accepter) (hrests.locked.trans hlocked)
        rw [← Rendezvous.nextSection] at haccepter
        simp only [hjoined, hkept.accepter, hvacant] at haccepter
        cases haccepter
    | ok outs c =>
        obtain ⟨⟨hjoins, -⟩, hdelivers⟩ := hends.ok hrun
        have hjoin : Reaches peer s₂ (s₂.goOn peer) { s.tasks peer with
            role := none, sends := outs, stage := .joined } c [] [] := by
          rw [hgoOn]
          simp only [Rendezvous.lockNext, hbegun.task, hbegun.locked, hrun]
          simp only [Rendezvous.enter, after, Lib.failure, hbegun.locked, hrun,
            Rendezvous.setTask, Option.none_beq_some, Bool.or_false]
          exact ⟨rfl, rfl, rfl, (List.append_nil _).symm⟩
        obtain ⟨task, hwritten, hempty, htask⟩ := @run_writes_or_stops peer (s₂.goOn peer)
          outs (by rw [hjoin.task])
          (by rw [hjoin.task]; exact hreports)
        have hall : Reaches peer s (s₂.nextSection peer) task c
            (outs.takeWhile fun out => writable out.message) [] := by
          have hsection := (hbegun.trans hjoin).trans hwritten
          rw [hjoin.locked] at hsection
          unfold Rendezvous.nextSection Rendezvous.writeAll
          rw [hjoin.task]
          simpa using hsection
        generalize s₂.nextSection peer = s₃ at hjoined hall ⊢
        have hidle {s₄ : Rendezvous} {task' : Task} (hthere : Reaches peer s s₄ task' c
            (outs.takeWhile fun out => writable out.message) [])
            (hended : task'.stage = .listening ∨ task'.stage = .stopped)
            (hnone : task'.sends = []) :
            Reaches peer s (s₄.nextSection peer) task' c
              (outs.takeWhile fun out => writable out.message) [] := by
          have hsame := @nextSection_idle s₄ peer (by rw [hthere.task]; exact hended)
            (by rw [hthere.task]; exact hnone)
          rw [hthere.task, hthere.locked] at hsame
          have hlast := hthere.trans hsame
          rwa [List.append_nil, List.append_nil] at hlast
        rcases htask with rfl | hstopped
        · have hsettle : Reaches peer s₃ (s₃.goOn peer) { s.tasks peer with
              role := some .accepter, sends := [], stage := .listening } c [] [] := by
            unfold Rendezvous.goOn
            simp only [Rendezvous.lockNext, hall.task, hjoin.task, Rendezvous.setTask]
            exact ⟨rfl, hall.locked, rfl, (List.append_nil _).symm⟩
          have hsettled := hall.trans (nextSection_reaches hsettle Writable.nil)
          simp only [List.append_nil] at hsettled
          exact ⟨_, c, outs, hidle hsettled (.inl rfl) rfl, hjoins, hdelivers⟩
        · exact ⟨task, c, outs, hidle (hidle hall (.inr hstopped) hempty) (.inr hstopped) hempty,
            hjoins, hdelivers⟩
  · -- the code is not listed any more
    have hreport : Rests peer s s₁ := by
      rw [← hs₁]
      exact report_rests ..
    rw [hreport.writeAll.nextSection.nextSection.nextSection.locked, hvacant] at hjoined
    cases hjoined

end DartUdp.Server
