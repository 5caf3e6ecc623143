import DartUdp.Proofs.ServerSections

/-!
# What a step does to the rendezvous

Every step has one of a dozen effects, and each says exactly which task and which
queue it changes. That the stage of a task and the pairing agree is the one thing
that has to be known for it; it is kept by every effect.

`step_effect` is the result, and `Effect.sane` keeps what it asks for. The
invariants of the runs are then shown effect by effect.
-/

namespace DartUdp.Server

open DartUdp.Lib DartUdp.Protocol
open DartUdp.Transfer (TransferId Digest)
open DartUdp.Session (RelayId)

/-- The task that goes on in a step. -/
def Action.who : Action → Option Peer
  | .goOn peer => some peer
  | _ => none

variable {s s' : Rendezvous} {c c' : Locked} {peer : Peer} {who : Option Peer}

/-! ## Tasks and the pairing -/

/-- The number of the message whose writes a task has yet to gather. -/
def Stage.inFlight : Stage → List Nat
  | .offering _ _ _ _ (some number) => [number]
  | _ => []

/-- The numbers of the messages that a task has yet to write. -/
def Task.inFlight (task : Task) : List Nat := numbers task.sends ++ task.stage.inFlight

/-- What the stage of a task tells. An offer on its way is the offerer's and has
been prepared; once it has a target, the target is the accepter. -/
def Task.Sane (c : Locked) (task : Task) : Prop :=
  match task.stage with
  | .listening | .stopped => True
  | .joining _ | .joined => task.role = none
  | .authorizing message _ => offered message = none
  | .targeting message _ => ∀ t d, offered message = some (t, d) →
      task.role = some .offerer ∧ (c.state.pathAuthorizations t).isSome ∧
        (c.state.transfers t).isSome
  | .offering message t _ target number => task.role = some .offerer ∧ task.sends = [] ∧
      (∃ d, offered message = some (t, d)) ∧ (c.state.pathAuthorizations t).isSome ∧
      c.state.accepter = some target ∧ number.isSome

structure Sane (s : Rendezvous) : Prop where
  role : ∀ peer, (s.tasks peer).role = some .offerer ↔ peer = s.locked.state.offerer
  task : ∀ peer, (s.tasks peer).Sane s.locked
  prepared : ∀ t, offeredIn s.locked.state.pendingForAccepter t →
    (s.locked.state.transfers t).isSome
  vacant : s.locked.state.accepter ≠ some s.locked.state.offerer
  drained : s.locked.state.accepter.isSome → s.locked.state.pendingForAccepter = []

/-- The pairing has an accepter as soon and as long as it had one. -/
structure Grows (c c' : Locked) : Prop where
  offerer : c'.state.offerer = c.state.offerer
  accepter : ∀ a, c.state.accepter = some a → c'.state.accepter = some a
  paths : ∀ t, (c.state.pathAuthorizations t).isSome → (c'.state.pathAuthorizations t).isSome
  transfers : ∀ t, (c.state.transfers t).isSome → (c'.state.transfers t).isSome

theorem Kept.grows (h : Kept c c') : Grows c c' :=
  ⟨h.offerer, fun _ ha => h.accepter.trans ha, h.paths, h.transfers⟩

theorem Joins.grows (h : Joins peer c c') : Grows c c' where
  offerer := h.offerer
  accepter := by
    intro a ha
    rw [h.vacant] at ha
    cases ha
  paths := h.kept.paths
  transfers := h.kept.transfers

theorem Task.Sane.grows {task : Task} (hsane : task.Sane c) (h : Grows c c') : task.Sane c' := by
  unfold Task.Sane at hsane ⊢
  cases hstage : task.stage with
  | listening | stopped => trivial
  | joining | joined | authorizing => simpa only [hstage] using hsane
  | targeting message requestId =>
      simp only [hstage] at hsane ⊢
      intro t d hoffer
      obtain ⟨hrole, hpath, htransfer⟩ := hsane t d hoffer
      exact ⟨hrole, h.paths t hpath, h.transfers t htransfer⟩
  | offering message t requestId target number =>
      simp only [hstage] at hsane ⊢
      obtain ⟨hrole, hsends, hoffer, hpath, haccepter, hnumber⟩ := hsane
      exact ⟨hrole, hsends, hoffer, h.paths t hpath, h.accepter target haccepter, hnumber⟩

/-! ## The effects -/

/-- An entry at the end of the queue it is for. -/
def pushed (queues : Peer → List Outgoing) (out : Outgoing) : Peer → List Outgoing :=
  Function.update queues out.target (queues out.target ++ [out])

/-- What a step can do, and the task that goes on where it matters. -/
inductive Effect (s : Rendezvous) : Option Peer → Rendezvous → Prop where
  /-- Nothing that matters to the peers. -/
  | still {who : Option Peer} {c : Locked} {listed : Bool} (kept : Kept s.locked c) :
      Effect s who { s with locked := c, listed }
  /-- The server has written a message of its own. -/
  | post {who : Option Peer} {out : Outgoing} (neutral : out.Neutral) :
      Effect s who { s with queues := pushed s.queues out }
  /-- A task has written its next message. -/
  | write {peer : Peer} {out : Outgoing} {rest : List Outgoing}
      (sends : (s.tasks peer).sends = out :: rest) :
      Effect s (some peer) { s with
        tasks := Function.update s.tasks peer { s.tasks peer with sends := rest }
        queues := pushed s.queues out }
  /-- A task has done with its message, or gives it up; what it had yet to write of
  the offerer's is lost only to a failure. -/
  | settle {who : Option Peer} {peer : Peer} {c : Locked} {task : Task} {read : List Message}
      {broken : Bool}
      (kept : Kept s.locked c) (role : task.role = (s.tasks peer).role)
      (stage : task.stage = .listening ∨ task.stage = .stopped)
      (neutral : ∀ out ∈ task.sends, out.Neutral) (hread : s.read.Sublist read)
      (hbroken : s.broken = true → broken = true)
      (lost : broken = true ∨ (s.tasks peer).inFlight = []) :
      Effect s who { s with
        locked := c, tasks := Function.update s.tasks peer task, read, broken }
  /-- A task is about to join the pairing. -/
  | knock {who : Option Peer} {peer : Peer} {requestId : UInt64} (role : (s.tasks peer).role = none)
      (sends : (s.tasks peer).sends = []) (stage : (s.tasks peer).stage = .listening) :
      Effect s who { s with
        tasks := Function.update s.tasks peer { s.tasks peer with stage := .joining requestId } }
  /-- A task has taken a message to route it, and prepared the transfer if it is an offer. -/
  | take {who : Option Peer} {peer : Peer} {role : PeerRole} {message : Message} {c : Locked}
      {task : Task}
      (kept : Kept s.locked c) (was : (s.tasks peer).role = some role)
      (sends : (s.tasks peer).sends = []) (stage : (s.tasks peer).stage = .listening)
      (hrole : task.role = some role) (neutral : ∀ out ∈ task.sends, out.Neutral)
      (next : (∃ requestId, task.stage = .authorizing message requestId) ∧ offered message = none ∨
        ∃ requestId, task.stage = .targeting message requestId)
      (offer : ∀ t d, offered message = some (t, d) → role = .offerer ∧
        (c.state.pathAuthorizations t).isSome ∧ (c.state.transfers t).isSome ∧
        ∀ a, s.locked.state.accepter = some a →
          ∃ out ∈ task.sends, out.target = a ∧ ticketFor out = some t) :
      Effect s who { s with
        locked := c, tasks := Function.update s.tasks peer task
        read := if role = .offerer then s.read ++ [message] else s.read }
  /-- The authorization a task is to route is valid. -/
  | check {who : Option Peer} {peer : Peer} {message : Message} {requestId : UInt64}
      (sends : (s.tasks peer).sends = [])
      (stage : (s.tasks peer).stage = .authorizing message requestId) :
      Effect s who { s with
        tasks := Function.update s.tasks peer
          { s.tasks peer with stage := .targeting message requestId } }
  /-- A message of the offerer waits for the accepter. -/
  | keep {who : Option Peer} {peer : Peer} {message : Message} {requestId : UInt64}
      (role : (s.tasks peer).role = some .offerer) (sends : (s.tasks peer).sends = [])
      (stage : (s.tasks peer).stage = .targeting message requestId)
      (vacant : s.locked.state.accepter = none) :
      Effect s who { s with
        locked := { s.locked with state := { s.locked.state with
          pendingForAccepter := s.locked.state.pendingForAccepter ++ [(message, requestId)] } }
        tasks := Function.update s.tasks peer { s.tasks peer with stage := .listening }
        routed := s.routed ++ [message] }
  /-- A message of the offerer is to be written to the accepter. -/
  | forward {who : Option Peer} {peer target : Peer} {message : Message} {requestId : UInt64}
      (role : (s.tasks peer).role = some .offerer) (sends : (s.tasks peer).sends = [])
      (stage : (s.tasks peer).stage = .targeting message requestId)
      (accepter : s.locked.state.accepter = some target) (plain : offered message = none) :
      Effect s who { s with
        tasks := Function.update s.tasks peer { s.tasks peer with
          sends := [{ target, message, requestId, number := some s.routed.length }]
          stage := .listening }
        routed := s.routed ++ [message] }
  /-- An offer of the offerer has its target. -/
  | aim {who : Option Peer} {peer target : Peer} {message : Message} {requestId : UInt64}
      {t : TransferId} {d : Digest}
      (role : (s.tasks peer).role = some .offerer) (sends : (s.tasks peer).sends = [])
      (stage : (s.tasks peer).stage = .targeting message requestId)
      (accepter : s.locked.state.accepter = some target) (offer : offered message = some (t, d)) :
      Effect s who { s with
        tasks := Function.update s.tasks peer { s.tasks peer with
          stage := .offering message t requestId target (some s.routed.length) }
        routed := s.routed ++ [message] }
  /-- All that is written for an offer is known. -/
  | gather {who : Option Peer} {peer target : Peer} {message : Message} {requestId : UInt64}
      {t : TransferId} {number : Option Nat} {ahead : List Outgoing}
      (role : (s.tasks peer).role = some .offerer) (sends : (s.tasks peer).sends = [])
      (stage : (s.tasks peer).stage = .offering message t requestId target number)
      (neutral : ∀ out ∈ ahead, out.Neutral) :
      Effect s who { s with
        tasks := Function.update s.tasks peer { s.tasks peer with
          sends := ahead ++ [{ target, message, requestId, number }]
          stage := .listening } }
  /-- A task has joined the pairing, and what was pending is to be written. -/
  | join {peer : Peer} {c : Locked} {requestId : UInt64} {outs : List Outgoing}
      (sends : (s.tasks peer).sends = []) (stage : (s.tasks peer).stage = .joining requestId)
      (joins : Joins peer s.locked c) (admits : s.locked.admits s.config)
      (delivers : Delivers peer s.locked s.locked.state.pendingForAccepter outs) :
      Effect s (some peer) { s with
        locked := c
        tasks := Function.update s.tasks peer
          { s.tasks peer with sends := outs, stage := .joined } }
  /-- A task has joined, and the random source has failed. -/
  | joinLost {peer : Peer} {c : Locked} {requestId : UInt64} {task : Task}
      (sends : (s.tasks peer).sends = []) (stage : (s.tasks peer).stage = .joining requestId)
      (joins : Joins peer s.locked c) (admits : s.locked.admits s.config)
      (role : task.role = none) (next : task.stage = .listening)
      (neutral : ∀ out ∈ task.sends, out.Neutral) :
      Effect s (some peer) { s with
        locked := c, tasks := Function.update s.tasks peer task, broken := true }
  /-- A task that has joined and written everything listens to its connection. -/
  | settleIn {who : Option Peer} {peer : Peer} (sends : (s.tasks peer).sends = [])
      (stage : (s.tasks peer).stage = .joined) :
      Effect s who { s with
        tasks := Function.update s.tasks peer
          { s.tasks peer with role := some .accepter, stage := .listening } }

/-! ## Failures -/

theorem errorMessage_neutral (target : Peer) (scope : Session.TransferErrorScope) (code : UInt32)
    (text : Text) (requestId : UInt64) :
    Outgoing.Neutral { target, message := errorMessage scope code text, requestId } := ⟨rfl, rfl⟩

section

variable (task : Task) {read : List Message} {broken : Bool} (kept : Kept s.locked c)
  (role : task.role = (s.tasks peer).role) (hread : s.read.Sublist read)
  (hbroken : s.broken = true → broken = true)
  (lost : broken = true ∨ (s.tasks peer).inFlight = [])

include kept role hread hbroken lost

theorem effect_report (code : UInt32) (text : Text) :
    Effect s who (({ s with
      locked := c, tasks := Function.update s.tasks peer task, read, broken } :
        Rendezvous).report peer code text) := by
  unfold Rendezvous.report Rendezvous.setTask
  simp only [Function.update_self, Function.update_idem]
  refine .settle kept role (.inl rfl) ?_ hread hbroken lost
  intro out hout
  rw [List.mem_singleton.1 hout]
  exact errorMessage_neutral ..

theorem effect_routeFailed (code : Option UInt32) (text : Text) :
    Effect s who (({ s with
      locked := c, tasks := Function.update s.tasks peer task, read, broken } :
        Rendezvous).routeFailed peer code text) := by
  unfold Rendezvous.routeFailed
  split
  · exact effect_report task kept role hread hbroken lost _ _
  · unfold Rendezvous.setTask
    simp only [Function.update_self, Function.update_idem]
    refine .settle kept role (.inr rfl) ?_ hread hbroken lost
    intro out hout
    cases hout

end

theorem enter_ok {α : Type} {m : Section α} {a : α} (h : m s.locked = .ok a c) :
    s.enter m = { s with locked := c } := by
  simp [Rendezvous.enter, after, Lib.failure, h]

theorem enter_error {α : Type} {m : Section α} {e : ServerError} (h : m s.locked = .error e c) :
    s.enter m = { s with
      locked := c, broken := s.broken || e == randomnessUnavailable } := by
  simp [Rendezvous.enter, after, Lib.failure, h]

section

variable {broken : Bool} (kept : Kept s.locked c) (hbroken : s.broken = true → broken = true)
  (lost : broken = true ∨ (s.tasks peer).inFlight = [])

include kept hbroken lost

theorem effect_report_self (code : UInt32) (text : Text) :
    Effect s who (({ s with locked := c, broken } : Rendezvous).report peer code text) := by
  have h : Effect s who _ :=
    effect_report (s.tasks peer) kept rfl (List.Sublist.refl _) hbroken lost code text
  rwa [Function.update_eq_self] at h

theorem effect_routeFailed_self (code : Option UInt32) (text : Text) :
    Effect s who (({ s with locked := c, broken } : Rendezvous).routeFailed peer code text) := by
  have h : Effect s who _ :=
    effect_routeFailed (s.tasks peer) kept rfl (List.Sublist.refl _) hbroken lost
    code text
  rwa [Function.update_eq_self] at h

end

/-! ## The steps of a task -/

theorem startRoute_effect {role : PeerRole} {message : Message} {requestId : UInt64}
    (hrole : (s.tasks peer).role = some role) (hsends : (s.tasks peer).sends = [])
    (hstage : (s.tasks peer).stage = .listening) :
    Effect s who (({ s with read := if role = .offerer then s.read ++ [message] else s.read } :
      Rendezvous).startRoute peer role message requestId) := by
  have hread : s.read.Sublist (if role = .offerer then s.read ++ [message] else s.read) := by
    split
    · exact List.sublist_append_left ..
    · exact List.Sublist.refl _
  have hlost : (s.tasks peer).inFlight = [] := by
    rw [Task.inFlight, hsends, hstage]
    rfl
  have hsame (reports : Bool) : ({ s.tasks peer with reports } : Task).role = (s.tasks peer).role :=
    rfl
  have hnone : ∀ out ∈ (s.tasks peer).sends, out.Neutral := by
    rw [hsends]
    intro out hout
    cases hout
  unfold Rendezvous.startRoute Rendezvous.setTask
  dsimp only
  split
  · exact effect_routeFailed _ (Std.Refl.refl _) (hsame _) hread id (.inr hlost) _ _
  · next hvalid =>
      split
      · next t digest _ _ _ =>
          have hofferer : role = .offerer := by
            cases role with
            | offerer => rfl
            | accepter => cases hvalid
          split
          · next e c hrun =>
              simp only [Rendezvous.enter, after, Lib.failure, hrun]
              refine effect_routeFailed _ ((offerTickets_kept _ _ _).error hrun) (hsame _) hread ?_
                (.inr hlost) _ _
              intro hb
              rw [hb, Bool.true_or]
          · next sends c hrun =>
              simp only [Rendezvous.enter, after, Lib.failure, hrun, Option.none_beq_some,
                Bool.or_false]
              obtain ⟨hkept, hpath, hdigest, htickets⟩ := (offerTickets_kept _ _ _).ok hrun
              simp only [Function.update_idem]
              refine .take hkept hrole hsends hstage hrole htickets.neutral (.inr ⟨_, rfl⟩) ?_
              intro t' d hoffer
              cases hoffer
              exact ⟨hofferer, hpath, isSome_transfers.2 ⟨_, hdigest⟩, fun _ => htickets.ticket⟩
      · simp only [Function.update_idem]
        exact .take (Std.Refl.refl _) hrole hsends hstage hrole hnone (.inl ⟨⟨_, rfl⟩, rfl⟩)
          fun _ _ hoffer => by cases hoffer
      · next hoffer _ =>
          simp only [Function.update_idem]
          refine .take (Std.Refl.refl _) hrole hsends hstage hrole hnone (.inr ⟨_, rfl⟩) ?_
          intro t d hoffered
          unfold offered at hoffered
          split at hoffered
          · exact (hoffer _ _ _ _ _ rfl).elim
          · cases hoffered

theorem receive_effect (message : Message) (requestId : UInt64) :
    Effect s who (s.receive peer message requestId) := by
  unfold Rendezvous.receive
  dsimp only
  split
  · exact .still (Std.Refl.refl _)
  · next hidle =>
      obtain ⟨hsends, hstage⟩ : (s.tasks peer).sends = [] ∧ (s.tasks peer).stage = .listening := by
        simpa only [not_or, not_not] using hidle
      have hlost : (s.tasks peer).inFlight = [] := by
        rw [Task.inFlight, hsends, hstage]
        rfl
      split
      · next hrole => exact startRoute_effect hrole hsends hstage
      · next hrole =>
          split
          · exact .knock hrole hsends hstage
          · exact effect_report_self (Std.Refl.refl _) id (.inr hlost) _ _
      · exact .still (Std.Refl.refl _)
      · exact .still (Std.Refl.refl _)
      · exact effect_report_self (Std.Refl.refl _) id (.inr hlost) _ _

theorem lastSend_offerer (message : Message) (requestId : UInt64) (target : Peer)
    (number : Option Nat) :
    Rendezvous.lastSend .offerer message requestId target number =
      { target, message, requestId, number } := by
  unfold Rendezvous.lastSend
  split
  · contradiction
  · rfl

theorem target_effect (h : Sane s) {role : PeerRole} {message : Message} {requestId : UInt64}
    (hrole : (s.tasks peer).role = some role) (hsends : (s.tasks peer).sends = [])
    (hstage : (s.tasks peer).stage = .targeting message requestId) :
    Effect s who (s.target peer role message requestId) := by
  have hlost : (s.tasks peer).inFlight = [] := by
    rw [Task.inFlight, hsends, hstage]
    rfl
  have hsane := h.task peer
  simp only [Task.Sane, hstage] at hsane
  unfold Rendezvous.target
  dsimp only
  split
  · next e c hrun =>
      obtain rfl := (routeTarget_ends ..).error hrun
      rw [enter_error hrun]
      exact effect_routeFailed_self (Std.Refl.refl _) (fun hb => by rw [hb, Bool.true_or])
        (.inr hlost) _ _
  · next target c hrun =>
      have hends := (routeTarget_ends ..).ok hrun
      rw [enter_ok hrun]
      cases target with
      | none =>
          obtain ⟨rfl, hvacant, rfl⟩ := hends
          exact .keep hrole hsends hstage hvacant
      | some target =>
          obtain ⟨rfl, ⟨rfl, haccepter⟩ | ⟨rfl, rfl⟩⟩ := hends
          · cases hoffer : offered message with
            | none =>
                simp only [if_true, lastSend_offerer]
                exact .forward hrole hsends hstage haccepter hoffer
            | some o => exact .aim hrole hsends hstage haccepter hoffer
          · cases hoffer : offered message with
            | none =>
                refine .settle (Std.Refl.refl _) rfl (.inl rfl) ?_ (List.Sublist.refl _) id
                  (.inr hlost)
                intro out hout
                rw [List.mem_singleton.1 hout]
                unfold Rendezvous.lastSend
                split
                · exact errorMessage_neutral ..
                · exact ⟨hoffer, rfl⟩
            | some o =>
                have hofferer := (hsane o.1 o.2 hoffer).1
                rw [hrole] at hofferer
                cases hofferer

theorem lockNext_effect (h : Sane s) (hsends : (s.tasks peer).sends = []) :
    Effect s (some peer) (s.lockNext peer) := by
  have hsane := h.task peer
  cases hstage : (s.tasks peer).stage with
  | listening | stopped =>
      simp only [Rendezvous.lockNext, hstage]
      exact .still (Std.Refl.refl _)
  | joining requestId =>
      have hlost : (s.tasks peer).inFlight = [] := by
        rw [Task.inFlight, hsends, hstage]
        rfl
      simp only [Task.Sane, hstage] at hsane
      have hends := joinPairing_ends s.config peer requestId h.prepared
      cases hrun : joinPairing s.config peer requestId s.locked with
      | error e c =>
          simp only [Rendezvous.lockNext, hstage, hrun]
          rw [enter_error hrun]
          rcases hends.error hrun with hkept | ⟨⟨hjoins, hadmits⟩, hlacks⟩
          · exact effect_report_self hkept (fun hb => by rw [hb, Bool.true_or]) (.inr hlost) _ _
          · have hbroken : (s.broken || e == randomnessUnavailable) = true := by
              rw [beq_iff_eq.2 hlacks.1, Bool.or_true]
            rw [hbroken]
            refine .joinLost hsends hstage hjoins hadmits hsane rfl ?_
            intro out hout
            rw [List.mem_singleton.1 hout]
            exact errorMessage_neutral ..
      | ok outs c =>
          simp only [Rendezvous.lockNext, hstage, hrun]
          rw [enter_ok hrun]
          obtain ⟨⟨hjoins, hadmits⟩, hdelivers⟩ := hends.ok hrun
          exact .join hsends hstage hjoins hadmits hdelivers
  | joined =>
      simp only [Rendezvous.lockNext, hstage]
      exact .settleIn hsends hstage
  | authorizing message requestId =>
      have hlost : (s.tasks peer).inFlight = [] := by
        rw [Task.inFlight, hsends, hstage]
        rfl
      simp only [Rendezvous.lockNext, hstage]
      split
      · next t token expiresAt =>
          have hsame := validatePathAuthorization_same (c := s.locked) t token expiresAt
          cases hrun : validatePathAuthorization t token expiresAt s.locked with
          | error e c =>
              obtain rfl := hsame.error hrun
              simp only []
              rw [enter_error hrun]
              exact effect_routeFailed_self (Std.Refl.refl _) (fun hb => by rw [hb, Bool.true_or])
                (.inr hlost) _ _
          | ok _ c =>
              obtain rfl := hsame.ok hrun
              simp only []
              rw [enter_ok hrun]
              exact .check hsends hstage
      · exact .still (Std.Refl.refl _)
  | targeting message requestId =>
      cases hrole : (s.tasks peer).role with
      | none =>
          simp only [Rendezvous.lockNext, hstage, hrole]
          exact .still (Std.Refl.refl _)
      | some role =>
          simp only [Rendezvous.lockNext, hstage, hrole]
          exact target_effect h hrole hsends hstage
  | offering message t requestId target number =>
      simp only [Task.Sane, hstage] at hsane
      obtain ⟨hofferer, -, hoffer, hpath, haccepter, -⟩ := hsane
      cases hrun : offerRoute t requestId s.locked with
      | error e c =>
          rw [((offerRoute_ends _ _).error hrun).2] at hpath
          cases hpath
      | ok ahead c =>
          obtain ⟨rfl, hroute⟩ := (offerRoute_ends _ _).ok hrun
          have hgather : Effect s (some peer) _ := .gather hofferer hsends hstage hroute.neutral
          simp only [hofferer] at hgather
          simp only [Rendezvous.lockNext, hstage, hofferer, hrun]
          rw [enter_ok hrun, lastSend_offerer]
          exact hgather

theorem writeFails_effect (peer : Peer) (text : Text) : Effect s who (s.writeFails peer text) := by
  unfold Rendezvous.writeFails
  split
  · exact .still (Std.Refl.refl _)
  · exact effect_routeFailed_self (Std.Refl.refl _) (fun _ => rfl) (.inl rfl) _ _

theorem goOn_effect (h : Sane s) (peer : Peer) : Effect s (some peer) (s.goOn peer) := by
  unfold Rendezvous.goOn
  split
  · next hsends => exact lockNext_effect h hsends
  · next out rest hsends =>
      split
      · exact writeFails_effect peer _
      · exact .write hsends

theorem step_effect (h : Sane s) (a : Action) : Effect s a.who (s.step a) := by
  cases a with
  | tick elapsed unixMillis => exact .still (Kept.of_state rfl)
  | purge => exact .still (Std.Refl.refl _)
  | receive peer message requestId => exact receive_effect message requestId
  | goOn peer => exact goOn_effect h peer
  | writeFails peer text => exact writeFails_effect peer text
  | relayError role code text =>
      unfold Rendezvous.step Rendezvous.relayError
      dsimp only
      split
      · exact .still (Std.Refl.refl _)
      · exact .post (errorMessage_neutral ..)

/-! ## The stages stay sane -/

/-- One task changes, and the pairing grows. -/
theorem Sane.update (h : Sane s) {task : Task}
    (htasks : s'.tasks = Function.update s.tasks peer task) (hgrows : Grows s.locked s'.locked)
    (hrole : task.role = some .offerer ↔ (s.tasks peer).role = some .offerer)
    (htask : task.Sane s'.locked)
    (hprepared : ∀ t, offeredIn s'.locked.state.pendingForAccepter t →
      (s'.locked.state.transfers t).isSome)
    (hvacant : s'.locked.state.accepter ≠ some s'.locked.state.offerer)
    (hdrained : s'.locked.state.accepter.isSome → s'.locked.state.pendingForAccepter = []) :
    Sane s' := by
  refine ⟨fun p => ?_, fun p => ?_, hprepared, hvacant, hdrained⟩
  · rw [hgrows.offerer, htasks]
    by_cases hp : p = peer
    · subst hp
      rw [Function.update_self, hrole]
      exact h.role p
    · rw [Function.update_of_ne hp]
      exact h.role p
  · rw [htasks]
    by_cases hp : p = peer
    · subst hp
      rwa [Function.update_self]
    · rw [Function.update_of_ne hp]
      exact (h.task p).grows hgrows

/-- One task changes, and the pairing keeps its accepter and what is pending. -/
theorem Sane.update_kept (h : Sane s) {task : Task}
    (htasks : s'.tasks = Function.update s.tasks peer task) (hkept : Kept s.locked s'.locked)
    (hrole : task.role = some .offerer ↔ (s.tasks peer).role = some .offerer)
    (htask : task.Sane s'.locked) : Sane s' := by
  refine h.update htasks hkept.grows hrole htask ?_ ?_ ?_
  · rw [hkept.pending]
    exact fun t ht => hkept.transfers t (h.prepared t ht)
  · rw [hkept.accepter, hkept.offerer]
    exact h.vacant
  · rw [hkept.accepter, hkept.pending]
    exact h.drained

theorem Task.sane_of_ended {task : Task} (h : task.stage = .listening ∨ task.stage = .stopped) :
    task.Sane c := by
  unfold Task.Sane
  rcases h with h | h
  · rw [h]
    trivial
  · rw [h]
    trivial

/-- The pairing has got its accepter, the peer of a task without a role. -/
theorem Sane.joins (h : Sane s) {task : Task}
    (htasks : s'.tasks = Function.update s.tasks peer task) (hjoins : Joins peer s.locked s'.locked)
    (hbefore : (s.tasks peer).role = none) (hrole : task.role = none)
    (htask : task.Sane s'.locked) : Sane s' := by
  refine h.update htasks hjoins.grows (by rw [hrole, hbefore]) htask ?_ ?_ ?_
  · rw [hjoins.pending]
    rintro t ⟨entry, hentry, -⟩
    cases hentry
  · rw [hjoins.accepter, hjoins.offerer]
    intro hpeer
    cases hpeer
    rw [(h.role _).2 rfl] at hbefore
    cases hbefore
  · exact fun _ => hjoins.pending

theorem Effect.sane (heffect : Effect s who s') (h : Sane s) : Sane s' := by
  have hsame := Kept.grows (Std.Refl.refl s.locked)
  cases heffect with
  | still kept =>
      refine @Sane.update_kept s _ 0 h (s.tasks 0) ?_ kept Iff.rfl ?_
      · rw [Function.update_eq_self]
      · exact (h.task 0).grows kept.grows
  | post neutral => exact ⟨h.role, h.task, h.prepared, h.vacant, h.drained⟩
  | @write peer out rest sends =>
      refine h.update_kept rfl (Std.Refl.refl _) Iff.rfl ?_
      have hsane := h.task peer
      unfold Task.Sane at hsane ⊢
      cases hstage : (s.tasks peer).stage with
      | offering =>
          simp only [hstage, sends] at hsane
          cases hsane.2.1
      | listening | stopped => trivial
      | joining | joined | authorizing | targeting => simpa only [hstage] using hsane
  | settle kept role stage =>
      exact h.update_kept rfl kept (by rw [role]) (Task.sane_of_ended stage)
  | knock role => exact h.update_kept rfl (Std.Refl.refl _) Iff.rfl role
  | take kept was sends stage hrole neutral next offer =>
      refine h.update_kept rfl kept (by rw [was, hrole]) ?_
      unfold Task.Sane
      rcases next with ⟨⟨requestId, next⟩, hnone⟩ | ⟨requestId, next⟩
      · rw [next]
        exact hnone
      · rw [next]
        intro t d hoffer
        obtain ⟨rfl, hpath, htransfer, -⟩ := offer t d hoffer
        exact ⟨hrole, hpath, htransfer⟩
  | @check _ peer message requestId sends stage =>
      refine h.update_kept rfl (Std.Refl.refl _) Iff.rfl ?_
      have hsane := h.task peer
      simp only [Task.Sane, stage] at hsane
      intro t d hoffer
      rw [hsane] at hoffer
      cases hoffer
  | @keep _ peer message requestId role sends stage vacant =>
      refine h.update rfl ⟨rfl, fun _ ha => ha, fun _ h => h, fun _ h => h⟩ Iff.rfl
        (Task.sane_of_ended (.inl rfl)) ?_ h.vacant ?_
      · rintro t ⟨entry, hentry, d, hoffer⟩
        rcases List.mem_append.1 hentry with hentry | hentry
        · exact h.prepared t ⟨entry, hentry, d, hoffer⟩
        · obtain rfl := List.mem_singleton.1 hentry
          have hsane := h.task peer
          simp only [Task.Sane, stage] at hsane
          exact (hsane t d hoffer).2.2
      · intro haccepter
        rw [vacant] at haccepter
        cases haccepter
  | forward => exact h.update_kept rfl (Std.Refl.refl _) Iff.rfl (Task.sane_of_ended (.inl rfl))
  | @aim _ peer target message requestId t d role sends stage accepter offer =>
      refine h.update_kept rfl (Std.Refl.refl _) Iff.rfl ?_
      have hsane := h.task peer
      simp only [Task.Sane, stage] at hsane
      exact ⟨role, sends, ⟨d, offer⟩, (hsane t d offer).2.1, accepter, rfl⟩
  | gather => exact h.update_kept rfl (Std.Refl.refl _) Iff.rfl (Task.sane_of_ended (.inl rfl))
  | @join peer c requestId outs sends stage joins admits =>
      have hsane := h.task peer
      simp only [Task.Sane, stage] at hsane
      exact h.joins rfl joins hsane hsane hsane
  | @joinLost peer c requestId task sends stage joins admits role next =>
      have hsane := h.task peer
      simp only [Task.Sane, stage] at hsane
      exact h.joins rfl joins hsane role (Task.sane_of_ended (.inl next))
  | @settleIn _ peer sends stage =>
      have hsane := h.task peer
      simp only [Task.Sane, stage] at hsane
      refine h.update_kept rfl (Std.Refl.refl _) ?_ (Task.sane_of_ended (.inl rfl))
      rw [hsane]
      exact ⟨fun hrole => (by cases hrole), fun hrole => (by cases hrole)⟩

theorem step_sane (h : Sane s) (a : Action) : Sane (s.step a) := (step_effect h a).sane h

theorem start_sane (config : ServerConfig) (id : PairingId) (relayId : RelayId)
    (relayTicket : SessionTicket) (offerer : Peer) (now lifetime : Nat) (unixMillis : UInt64)
    (random : Nat → Option (Vector UInt8 32)) :
    Sane
      (Rendezvous.start config id relayId relayTicket offerer now lifetime unixMillis random) where
  role := by
    intro peer
    by_cases h : peer = offerer
    · simp [Rendezvous.start, h]
    · simp [Rendezvous.start, h]
  task := by
    intro peer
    refine Task.sane_of_ended (.inl ?_)
    by_cases h : peer = offerer
    · simp [Rendezvous.start, h]
    · simp [Rendezvous.start, h]
  prepared := by
    rintro t ⟨entry, hentry, -⟩
    cases hentry
  vacant := by simp [Rendezvous.start]
  drained := fun _ => rfl

/-! ## A pairing to run -/

/-- A random source that repeats itself only after 256 draws. -/
def sampleRandom (drawn : Nat) : Option (Vector UInt8 32) :=
  some (Vector.replicate 32 (UInt8.ofNat drawn))

/-- A pairing of the offerer 0. -/
def samplePairing : Rendezvous :=
  .start {} (Vector.replicate 16 1) (Vector.replicate 16 2) (List.replicate 32 3) 0 0
    600000000000 0 sampleRandom

/-- The offer of a transfer whose id repeats the byte. -/
def sampleOffer (byte : UInt8) : Message :=
  .pairing (.offerReady (Vector.replicate 16 byte) ⟨.blake3, Vector.replicate 32 byte⟩ 1 10
    (.ofAscii "a"))

theorem sampleCode_minLen : pairingCodeMinLen ≤ (ascii "ABCD2345").length := by decide

theorem sampleCode_maxLen : (ascii "ABCD2345").length ≤ pairingCodeMaxLen := by decide

theorem sampleCode_symbols : ∀ byte ∈ ascii "ABCD2345", byte ∈ crockfordAlphabet := by
  decide +kernel

def sampleJoin : Message :=
  .pairing (.joinPairing
    ⟨ascii "ABCD2345", sampleCode_minLen, sampleCode_maxLen, sampleCode_symbols⟩
    (Vector.replicate 16 0) (Vector.replicate 32 0))

end DartUdp.Server
