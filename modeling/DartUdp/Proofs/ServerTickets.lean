import DartUdp.Lib.Runs
import DartUdp.Proofs.ServerSteps

/-!
# An offer goes after its ticket

The accepter gets the ticket of a transfer before the offer of it, provided that
nobody joins the pairing while an offer is on its way between its first section,
which gives the accepter its ticket only if there is an accepter, and the section
that finds its target. Without the condition it may get the offer and no ticket.

The module is for `offer_after_ticket`. `Ticketed` is the invariant, of the queues
and of what the tasks have yet to write, and `Effect.ticketed` its step; a join
counts as one amid an offer only while that offer still finds its target
(`joinsAmidOffer`).
-/

namespace DartUdp.Server

open DartUdp.Lib DartUdp.Protocol
open DartUdp.Transfer (TransferId Digest)
open DartUdp.Session (RelayId)

variable {s s' : Rendezvous} {c c' : Locked} {peer : Peer} {who : Option Peer}

/-! ## What is known about the tickets -/

/-- The ticket for an offer that a task has on its way to the accepter is in its
queue or about to be written. -/
def Task.Ticketed (accepter : Option Peer) (queues : Peer → List Outgoing) (task : Task) : Prop :=
  match task.stage with
  | .targeting message _ => ∀ t d a, offered message = some (t, d) → accepter = some a →
      ∃ out ∈ queues a ++ toPeer a task.sends, ticketFor out = some t
  | .offering _ t _ target _ => ∃ out ∈ queues target ++ toPeer target task.sends,
      ticketFor out = some t
  | _ => True

structure Ticketed (s : Rendezvous) : Prop where
  queue : ∀ q, Guarded ticketFor offers [] (s.queues q)
  sends : ∀ p q, Guarded ticketFor offers (s.queues q) (toPeer q (s.tasks p).sends)
  task : ∀ p, (s.tasks p).Ticketed s.locked.state.accepter s.queues

theorem Task.Ticketed.mono {accepter : Option Peer} {queues queues' : Peer → List Outgoing}
    {task task' : Task} (h : task.Ticketed accepter queues) (hstage : task'.stage = task.stage)
    (hsub : ∀ q, ∀ out ∈ queues q ++ toPeer q task.sends, out ∈ queues' q ++ toPeer q task'.sends) :
    task'.Ticketed accepter queues' := by
  unfold Task.Ticketed at h ⊢
  rw [hstage]
  cases hcase : task.stage with
  | targeting message requestId =>
      simp only [hcase] at h ⊢
      intro t d a hoffer ha
      obtain ⟨out, hout, hticket⟩ := h t d a hoffer ha
      exact ⟨out, hsub a out hout, hticket⟩
  | offering message t requestId target number =>
      simp only [hcase] at h ⊢
      obtain ⟨out, hout, hticket⟩ := h
      exact ⟨out, hsub target out hout, hticket⟩
  | _ => trivial

theorem Task.ticketed_of_ended {accepter : Option Peer} {queues : Peer → List Outgoing}
    {task : Task} (h : task.stage = .listening ∨ task.stage = .stopped) :
    task.Ticketed accepter queues := by
  unfold Task.Ticketed
  rcases h with h | h
  · rw [h]
    trivial
  · rw [h]
    trivial

/-! ## The queues -/

theorem toPeer_cons_self (out : Outgoing) (outs : List Outgoing) :
    toPeer out.target (out :: outs) = out :: toPeer out.target outs := by
  simp [toPeer]

theorem toPeer_cons_of_ne {out : Outgoing} {outs : List Outgoing} {q : Peer}
    (h : q ≠ out.target) : toPeer q (out :: outs) = toPeer q outs := by
  simp [toPeer, Ne.symm h]

theorem pushed_self (queues : Peer → List Outgoing) (out : Outgoing) :
    pushed queues out out.target = queues out.target ++ [out] := Function.update_self ..

theorem pushed_of_ne {queues : Peer → List Outgoing} {out : Outgoing} {q : Peer}
    (h : q ≠ out.target) : pushed queues out q = queues q := Function.update_of_ne h ..

theorem mem_pushed {queues : Peer → List Outgoing} {out out' : Outgoing} {q : Peer}
    (h : out' ∈ queues q) : out' ∈ pushed queues out q := by
  by_cases hq : q = out.target
  · subst hq
    rw [pushed_self]
    exact List.mem_append_left _ h
  · rwa [pushed_of_ne hq]

theorem guarded_of_neutral {seen outs : List Outgoing} (q : Peer) (h : ∀ out ∈ outs, out.Neutral) :
    Guarded ticketFor offers seen (toPeer q outs) :=
  guarded_of_none fun out hout => (h out (mem_toPeer.1 hout).1).offers

/-- An entry may be pushed wherever it finds its ticket. -/
theorem guarded_pushed {queues : Peer → List Outgoing} {out : Outgoing}
    (h : ∀ q, Guarded ticketFor offers [] (queues q))
    (hout : Guarded ticketFor offers (queues out.target) [out]) (q : Peer) :
    Guarded ticketFor offers [] (pushed queues out q) := by
  by_cases hq : q = out.target
  · subst hq
    rw [pushed_self]
    exact guarded_append.2 ⟨h _, hout⟩
  · rw [pushed_of_ne hq]
    exact h q

theorem guarded_after_push {queues : Peer → List Outgoing} {out : Outgoing} {q : Peer}
    {outs : List Outgoing} (h : Guarded ticketFor offers (queues q) outs) :
    Guarded ticketFor offers (pushed queues out q) outs := h.mono fun _ hx => mem_pushed hx

/-! ## The step -/

/-- Only a task changes, and it writes no offer without a ticket. -/
theorem Ticketed.update (h : Ticketed s) {task : Task}
    (htasks : s'.tasks = Function.update s.tasks peer task) (hqueues : s'.queues = s.queues)
    (haccepter : s'.locked.state.accepter = s.locked.state.accepter)
    (hsends : ∀ q, Guarded ticketFor offers (s.queues q) (toPeer q task.sends))
    (htask : task.Ticketed s.locked.state.accepter s.queues) : Ticketed s' := by
  refine ⟨fun q => ?_, fun p q => ?_, fun p => ?_⟩
  · rw [hqueues]
    exact h.queue q
  · rw [hqueues, htasks]
    by_cases hp : p = peer
    · rw [hp, Function.update_self]
      exact hsends q
    · rw [Function.update_of_ne hp]
      exact h.sends p q
  · rw [hqueues, htasks, haccepter]
    by_cases hp : p = peer
    · rw [hp, Function.update_self]
      exact htask
    · rw [Function.update_of_ne hp]
      exact h.task p

/-- A task writes its next entry. -/
theorem Ticketed.pushes (h : Ticketed s) {task : Task} {out : Outgoing}
    (htasks : s'.tasks = Function.update s.tasks peer task)
    (hqueues : s'.queues = pushed s.queues out)
    (haccepter : s'.locked.state.accepter = s.locked.state.accepter)
    (hstage : task.stage = (s.tasks peer).stage)
    (hsends : (s.tasks peer).sends = out :: task.sends) : Ticketed s' := by
  have hwritten := h.sends peer out.target
  rw [hsends, toPeer_cons_self] at hwritten
  refine ⟨fun q => ?_, fun p q => ?_, fun p => ?_⟩
  · rw [hqueues]
    exact guarded_pushed h.queue ⟨hwritten.1, trivial⟩ q
  · rw [hqueues, htasks]
    by_cases hp : p = peer
    · rw [hp, Function.update_self]
      by_cases hq : q = out.target
      · rw [hq, pushed_self]
        exact hwritten.2
      · have hrest := h.sends peer q
        rw [hsends, toPeer_cons_of_ne hq] at hrest
        rwa [pushed_of_ne hq]
    · rw [Function.update_of_ne hp]
      exact guarded_after_push (h.sends p q)
  · rw [hqueues, htasks, haccepter]
    by_cases hp : p = peer
    · rw [hp, Function.update_self]
      refine (h.task peer).mono hstage fun q x hx => ?_
      rw [hsends] at hx
      by_cases hq : q = out.target
      · rw [hq, toPeer_cons_self] at hx
        rw [hq, pushed_self, List.append_assoc]
        exact hx
      · rw [toPeer_cons_of_ne hq] at hx
        rwa [pushed_of_ne hq]
    · rw [Function.update_of_ne hp]
      refine (h.task p).mono rfl fun q x hx => ?_
      exact (List.mem_append.1 hx).elim (fun hx => List.mem_append_left _ (mem_pushed hx))
        fun hx => List.mem_append_right _ hx

/-- A task has the tickets for an offer and has yet to find its target. -/
def Task.amidOffer (task : Task) : Bool :=
  match task.stage with
  | .targeting message _ => (offered message).isSome
  | _ => false

/-- The step joins the pairing while the offerer's task is amid an offer. A join that is
refused does not count, nor one of a pairing that has expired, which routes no more. -/
def Rendezvous.joinsAmidOffer (s : Rendezvous) : Action → Bool
  | .goOn peer =>
      match (s.tasks peer).sends, (s.tasks peer).stage with
      | [], .joining _ => s.locked.admits s.config && (s.tasks s.locked.state.offerer).amidOffer
      | _, _ => false
  | _ => false

/-- Only the offerer's task is ever amid an offer. -/
theorem Sane.offered_eq_none (h : Sane s)
    (haway : (s.tasks s.locked.state.offerer).amidOffer = false) {p : Peer} {message : Message}
    {requestId : UInt64} (hstage : (s.tasks p).stage = .targeting message requestId) :
    offered message = none := by
  cases hoffer : offered message with
  | none => rfl
  | some o =>
      have htask := h.task p
      simp only [Task.Sane, hstage] at htask
      obtain rfl := (h.role p).1 (htask o.1 o.2 hoffer).1
      simp only [Task.amidOffer, hstage, hoffer] at haway
      cases haway

/-- The pairing has got its accepter. -/
theorem Ticketed.joins (h : Ticketed s) (hsane : Sane s)
    (haway : (s.tasks s.locked.state.offerer).amidOffer = false) {task : Task}
    (htasks : s'.tasks = Function.update s.tasks peer task) (hqueues : s'.queues = s.queues)
    (hvacant : s.locked.state.accepter = none)
    (hsends : ∀ q, Guarded ticketFor offers (s.queues q) (toPeer q task.sends))
    (hstage : task.stage = .joined ∨ task.stage = .listening) : Ticketed s' := by
  refine ⟨fun q => ?_, fun p q => ?_, fun p => ?_⟩
  · rw [hqueues]
    exact h.queue q
  · rw [hqueues, htasks]
    by_cases hp : p = peer
    · rw [hp, Function.update_self]
      exact hsends q
    · rw [Function.update_of_ne hp]
      exact h.sends p q
  · rw [htasks]
    unfold Task.Ticketed
    by_cases hp : p = peer
    · rw [hp, Function.update_self]
      rcases hstage with hstage | hstage
      · rw [hstage]
        trivial
      · rw [hstage]
        trivial
    · rw [Function.update_of_ne hp]
      cases hcase : (s.tasks p).stage with
      | targeting message requestId =>
          intro t d a hoffer
          rw [hsane.offered_eq_none haway hcase] at hoffer
          cases hoffer
      | offering message t requestId target number =>
          have htask := hsane.task p
          simp only [Task.Sane, hcase] at htask
          rw [hvacant] at htask
          cases htask.2.2.2.2.1
      | _ => trivial

theorem Effect.ticketed (heffect : Effect s who s') (hsane : Sane s) (h : Ticketed s)
    (haway : ∀ p requestId, who = some p → (s.tasks p).sends = [] →
      (s.tasks p).stage = .joining requestId → s.locked.admits s.config →
      (s.tasks s.locked.state.offerer).amidOffer = false) : Ticketed s' := by
  cases heffect with
  | still kept =>
      refine ⟨h.queue, h.sends, fun p => ?_⟩
      rw [kept.accepter]
      exact h.task p
  | post neutral =>
      refine ⟨guarded_pushed h.queue (guarded_of_none ?_),
        fun p q => guarded_after_push (h.sends p q),
        fun p => (h.task p).mono rfl ?_⟩
      · intro out hout
        rw [List.mem_singleton.1 hout]
        exact neutral.offers
      · intro q out hout
        exact (List.mem_append.1 hout).elim (fun hout => List.mem_append_left _ (mem_pushed hout))
          fun hout => List.mem_append_right _ hout
  | @write peer out rest sends => exact h.pushes rfl rfl rfl rfl sends
  | settle kept role stage neutral =>
      exact h.update rfl rfl kept.accepter (fun q => guarded_of_neutral q neutral)
        (Task.ticketed_of_ended stage)
  | @knock _ peer => exact h.update rfl rfl rfl (h.sends peer) trivial
  | @take _ peer role message c task kept was sends stage hrole neutral next offer =>
      refine h.update rfl rfl kept.accepter (fun q => guarded_of_neutral q neutral) ?_
      unfold Task.Ticketed
      rcases next with ⟨⟨requestId, next⟩, hnone⟩ | ⟨requestId, next⟩
      · rw [next]
        trivial
      · rw [next]
        intro t d a hoffer ha
        obtain ⟨out, hout, htarget, hticket⟩ := (offer t d hoffer).2.2.2 a ha
        exact ⟨out, List.mem_append_right _ (mem_toPeer.2 ⟨hout, htarget⟩), hticket⟩
  | @check _ peer message requestId sends stage =>
      refine h.update rfl rfl rfl (h.sends peer) ?_
      have htask := hsane.task peer
      simp only [Task.Sane, stage] at htask
      intro t d a hoffer
      rw [htask] at hoffer
      cases hoffer
  | @keep _ peer => exact h.update rfl rfl rfl (h.sends peer) (Task.ticketed_of_ended (.inl rfl))
  | forward role sends stage accepter plain =>
      refine h.update rfl rfl rfl (fun q => guarded_of_none ?_) (Task.ticketed_of_ended (.inl rfl))
      intro out hout
      rw [List.mem_singleton.1 (mem_toPeer.1 hout).1, offers, plain]
      rfl
  | @aim _ peer target message requestId t d role sends stage accepter offer =>
      refine h.update rfl rfl rfl (h.sends peer) ?_
      have htask := h.task peer
      simp only [Task.Ticketed, stage] at htask
      exact htask t d target offer accepter
  | @gather _ peer target message requestId t number ahead role sends stage neutral =>
      refine h.update rfl rfl rfl (fun q => ?_) (Task.ticketed_of_ended (.inl rfl))
      have htask := h.task peer
      simp only [Task.Ticketed, stage, sends] at htask
      obtain ⟨ticket, hticket, hfor⟩ := htask
      have hoffer := hsane.task peer
      simp only [Task.Sane, stage] at hoffer
      obtain ⟨-, -, ⟨d, hoffer⟩, -⟩ := hoffer
      rw [toPeer_append]
      refine guarded_append.2 ⟨guarded_of_neutral q neutral, ?_⟩
      by_cases hq : q = target
      · rw [hq]
        simp only [toPeer, decide_true, List.filter_cons_of_pos, List.filter_nil]
        refine ⟨fun t' ht' => ?_, trivial⟩
        rw [offers, hoffer] at ht'
        cases ht'
        exact ⟨ticket, List.mem_append_left _ (by simpa [toPeer] using hticket), hfor⟩
      · rw [toPeer_cons_of_ne hq]
        trivial
  | @join peer c requestId outs sends stage joins admits delivers =>
      refine h.joins hsane (haway peer requestId rfl sends stage admits) rfl rfl joins.vacant
        (fun q => ?_) (.inl rfl)
      obtain ⟨joinTicket, requestId, tickets, pathAuth, htickets, -, rfl⟩ := delivers
      rw [toPeer_append]
      refine guarded_append.2 ⟨guarded_of_neutral q ?_,
        guarded_deliverAll _ _ _ _ htickets.ticketOf htickets.all _ _ _⟩
      simp only [List.mem_cons, List.not_mem_nil, or_false]
      rintro out (rfl | rfl)
      · exact ⟨rfl, rfl⟩
      · exact ⟨rfl, rfl⟩
  | @joinLost peer c requestId task sends stage joins admits role next neutral =>
      exact h.joins hsane (haway peer requestId rfl sends stage admits) rfl rfl joins.vacant
        (fun q => guarded_of_neutral q neutral) (.inr next)
  | @settleIn _ peer =>
      exact h.update rfl rfl rfl (h.sends peer) (Task.ticketed_of_ended (.inl rfl))

/-! ## The runs -/

theorem step_ticketed (hsane : Sane s) (h : Ticketed s) (a : Action)
    (haway : s.joinsAmidOffer a = false) : Ticketed (s.step a) := by
  refine (step_effect hsane a).ticketed hsane h fun p requestId hwho hsends hstage hadmits => ?_
  cases a with
  | goOn peer =>
      cases hwho
      simpa only [Rendezvous.joinsAmidOffer, hsends, hstage, hadmits, Bool.true_and] using haway
  | _ => cases hwho

section

variable (config : ServerConfig) (id : PairingId) (relayId : RelayId)
  (relayTicket : SessionTicket) (offerer : Peer) (now lifetime : Nat) (unixMillis : UInt64)
  (random : Nat → Option (Vector UInt8 32))

theorem start_ticketed : Ticketed
    (Rendezvous.start config id relayId relayTicket offerer now lifetime unixMillis random) where
  queue := fun _ => trivial
  sends := by
    intro p q
    by_cases h : p = offerer
    · simp [Rendezvous.start, h, toPeer, Guarded]
    · simp [Rendezvous.start, h, toPeer, Guarded]
  task := by
    intro p
    refine Task.ticketed_of_ended (.inl ?_)
    by_cases h : p = offerer
    · simp [Rendezvous.start, h]
    · simp [Rendezvous.start, h]

/-- In a run that never joins the pairing amid an offer, whoever gets an offer has
got the accepter's ticket for its transfer before. -/
theorem offer_after_ticket (actions : List Action)
    (haway : Meets Rendezvous.step (fun s a => s.joinsAmidOffer a = false)
      (Rendezvous.start config id relayId relayTicket offerer now lifetime unixMillis random)
      actions)
    {q : Peer} {front back : List Outgoing} {out : Outgoing} {t : TransferId}
    (hqueue : ((Rendezvous.start config id relayId relayTicket offerer now lifetime unixMillis
      random).run actions).queues q = front ++ out :: back)
    (hoffer : offers out = some t) : ∃ ticket ∈ front, ticketFor ticket = some t := by
  have hrun : Sane _ ∧ Ticketed _ := haway.run
    (I := fun s => Sane s ∧ Ticketed s)
    ⟨start_sane config id relayId relayTicket offerer now lifetime unixMillis random,
      start_ticketed config id relayId relayTicket offerer now lifetime unixMillis random⟩
    fun s a h haway => ⟨step_sane h.1 a, step_ticketed h.1 h.2 a haway⟩
  have hguarded := hrun.2.queue q
  rw [← Rendezvous.run, hqueue] at hguarded
  exact hguarded.before hoffer

end

/-! ## A join amid an offer -/

/-- The offerer sends an offer, and the accepter joins between the first two
sections of its route. -/
def joinAmidOffer : List Action :=
  [.receive 0 (sampleOffer 4) 1, .goOn 0, .receive 1 sampleJoin 2, .goOn 1] ++
    List.replicate 7 (.goOn 0)

/-- The accepter gets the offer, and no ticket before it. -/
theorem offer_without_ticket :
    let queue := (samplePairing.run joinAmidOffer).queues 1
    ∃ front out back, queue = front ++ out :: back ∧
      offers out = some (Vector.replicate 16 4) ∧
      ∀ ticket ∈ front, ticketFor ticket ≠ some (Vector.replicate 16 4) := by
  refine ⟨((samplePairing.run joinAmidOffer).queues 1).take 2,
    { target := 1, message := sampleOffer 4, requestId := 1, number := some 0 }, [], ?_⟩
  decide +kernel

/-- The accepter joins, and then the offerer sends an offer. -/
def joinThenOffer : List Action :=
  [.receive 1 sampleJoin 2, .goOn 1, .goOn 1, .goOn 1, .goOn 1, .receive 0 (sampleOffer 4) 1] ++
    List.replicate 9 (.goOn 0)

theorem offer_after_ticket_joined :
    ∃ ticket ∈ ((samplePairing.run joinThenOffer).queues 1).take 4,
      ticketFor ticket = some (Vector.replicate 16 4) := by
  have hqueue : (samplePairing.run joinThenOffer).queues 1 =
      ((samplePairing.run joinThenOffer).queues 1).take 4 ++
        { target := 1, message := sampleOffer 4, requestId := 1, number := some 0 } :: [] := by
    decide +kernel
  exact offer_after_ticket {} (Vector.replicate 16 1) (Vector.replicate 16 2)
    (List.replicate 32 3) 0 0 600000000000 0 sampleRandom joinThenOffer (by decide +kernel) hqueue
    (by decide +kernel)

end DartUdp.Server
