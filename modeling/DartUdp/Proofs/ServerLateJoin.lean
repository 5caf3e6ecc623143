import DartUdp.Lib.Runs
import DartUdp.Proofs.ServerHandlers

/-!
# Late join and early join

The accepter is to get the same whether the offerer's messages are forwarded to it
or kept until it joins. What is random in the server's own messages is blanked to
compare the two. For every offer the accepter gets a ticket, the authorization, the
opening of the relay and the offer when they are forwarded; but of the pending
offers only those of the transfer offered first are authorized. And a message that
cannot be written is lost alone when it is forwarded, its sender being told, while
the join stops at it and leaves what is behind it.

`Gathered` is what the offerer's turns make of a pairing without an accepter, and
`Served` of one with it: the one keeps the messages, the other tells what has been
written to the accepter. `Gathered.turn` and `Served.turn` take one turn,
`Gathered.run` and `Served.run` any number, and `Gathered.joins` leads from the one
to the other. The queues of the two runs are then compared message by message:
`takeWhile_gets_eq_iff` says when nothing is missing.
-/

namespace DartUdp.Server

open DartUdp.Lib DartUdp.Protocol
open DartUdp.Transfer (TransferId Digest)
open DartUdp.Session (RelayId)

variable {s s' s₀ : Rendezvous} {c c' : Locked} {o a : Peer}

/-! ## What the accepter gets -/

/-- The message without what the server has drawn or taken from the clock. -/
def blank : Message → Message
  | .pairing (.pathCheckAuthorization t _ _) =>
      .pairing (.pathCheckAuthorization t (Vector.replicate 32 0) 0)
  | .pairing (.resumeTicket id t role d _ _) => .pairing (.resumeTicket id t role d 0 [])
  | .pairing (.pairingJoined id offerer accepter _) =>
      .pairing (.pairingJoined id offerer accepter [])
  | message => message

/-- What has been written to a connection. -/
def view (queue : List Outgoing) : List Message := queue.map fun out => blank out.message

theorem view_append (queue queue' : List Outgoing) :
    view (queue ++ queue') = view queue ++ view queue' := List.map_append ..

/-- The ticket, the authorization and the opening of the relay that go with an offer. -/
def blankTicket (state : PairingState) (t : TransferId) (d : Digest) : Message :=
  resumeTicketMessage state.id t .accepter d 0 []

def blankAuthorization (t : TransferId) : Message :=
  .pairing (.pathCheckAuthorization t (Vector.replicate 32 0) 0)

def opening (state : PairingState) (t : TransferId) : Message :=
  relayOpen t state.relayId state.relayTicket

/-- What the accepter gets for a message, its offer being authorized or not. -/
def gets (state : PairingState) (authorized : TransferId → Bool) (message : Message) :
    List Message :=
  match offered message with
  | none => [blank message]
  | some (t, d) => blankTicket state t d ::
      ((if authorized t then [blankAuthorization t] else []) ++ [opening state t, blank message])

/-- The connection has the authorization and the opening of the relay of a transfer. -/
def Opened (state : PairingState) (t : TransferId) (queue : List Outgoing) : Prop :=
  blankAuthorization t ∈ view queue ∧ opening state t ∈ view queue

theorem Opened.append {state : PairingState} {t : TransferId} {queue : List Outgoing}
    (h : Opened state t queue) (queue' : List Outgoing) : Opened state t (queue ++ queue') := by
  rw [Opened, view_append]
  exact ⟨List.mem_append_left _ h.1, List.mem_append_left _ h.2⟩

theorem forwards_view {message : Message} {requestId : UInt64} {state : PairingState}
    {outs : List Outgoing} (h : Forwards state a message requestId outs)
    (ha : state.accepter = some a) (hne : a ≠ state.offerer) :
    view (toPeer a outs) = gets state (fun _ => true) message ∧
      ∀ t d, offered message = some (t, d) → Opened state t (toPeer state.offerer outs) := by
  have hne' : ¬ state.offerer = a := Ne.symm hne
  obtain ⟨number, ⟨hplain, rfl⟩ | ⟨t, d, tickets, ahead, hoffer, ⟨expiresAt, offererTicket,
    accepterTicket, rfl⟩, ⟨authorization, rfl⟩, rfl⟩⟩ := h
  · refine ⟨?_, fun t d hoffer => ?_⟩
    · simp [gets, hplain, toPeer, view]
    · rw [hplain] at hoffer
      cases hoffer
  · refine ⟨?_, fun t' d' hoffer' => ?_⟩
    · simp [gets, hoffer, toPeer, view, ha, hne', blankTicket, blankAuthorization, opening, blank,
        resumeTicketMessage, pathAuthorizationMessage, relayOpen]
    · rw [hoffer] at hoffer'
      cases hoffer'
      simp [Opened, toPeer, view, ha, hne, blankAuthorization, opening, blank,
        resumeTicketMessage, pathAuthorizationMessage, relayOpen]

/-! ## What the accepter gets when it joins -/

/-- The transfer that is authorized for the pending messages. -/
def authorizes (pathAuth : Option (TransferId × Option PathAuthorization)) (t : TransferId) :
    Bool :=
  match pathAuth with
  | some (t', some _) => t' == t
  | _ => false

section

variable {state : PairingState} (requestId : UInt64) {tickets : TransferId → Option Message}
  (pathAuth : Option (TransferId × Option PathAuthorization)) (hne : a ≠ state.offerer)

include hne

theorem deliver_view (number : Nat) {message : Message}
    (htickets : ∀ t d, offered message = some (t, d) →
      ∃ m, tickets t = some m ∧ IsTicket state.id t d m) :
    view (toPeer a (deliver state a requestId tickets pathAuth message number)) =
        gets state (authorizes pathAuth) message ∧
      ∀ t d, offered message = some (t, d) → authorizes pathAuth t →
        Opened state t (toPeer state.offerer
          (deliver state a requestId tickets pathAuth message number)) := by
  have hne' : ¬ state.offerer = a := Ne.symm hne
  cases hoffer : offered message with
  | none =>
      refine ⟨?_, fun t d h => by cases h⟩
      simp [deliver, gets, hoffer, toPeer, view]
  | some o =>
      obtain ⟨t, d⟩ := o
      obtain ⟨m, hm, expiresAt, ticket, rfl⟩ := htickets t d hoffer
      rcases pathAuth with _ | ⟨t', _ | authorization⟩
      case none | some.some.none =>
          refine ⟨?_, fun t d _ h => by cases h⟩
          simp [deliver, gets, hoffer, hm, toPeer, view, hne', authorizes, blankTicket, opening,
            blank, resumeTicketMessage, relayOpen]
      case some.some.some =>
          by_cases ht : t' = t
          · subst ht
            refine ⟨?_, fun t d h _ => ?_⟩
            · simp [deliver, gets, hoffer, hm, toPeer, view, hne', authorizes, blankTicket,
                blankAuthorization, opening, blank, resumeTicketMessage, relayOpen,
                pathAuthorizationMessage]
            · cases h
              simp [deliver, hoffer, hm, Opened, toPeer, view, hne, blankAuthorization, opening,
                blank, relayOpen, pathAuthorizationMessage]
          · refine ⟨?_, fun t d h hauth => ?_⟩
            · simp [deliver, gets, hoffer, hm, toPeer, view, hne', authorizes, ht, blankTicket,
                opening, blank, resumeTicketMessage, relayOpen]
            · cases h
              exact (ht (by simpa [authorizes] using hauth)).elim

theorem deliverAll_view (number : Nat) {pending : List (Message × UInt64)}
    (htickets : ∀ t d, (∃ entry ∈ pending, offered entry.1 = some (t, d)) →
      ∃ m, tickets t = some m ∧ IsTicket state.id t d m) :
    view (toPeer a (deliverAll state a requestId tickets pathAuth number pending)) =
        (pending.map (·.1)).flatMap (gets state (authorizes pathAuth)) ∧
      ∀ t, offeredIn pending t → authorizes pathAuth t →
        Opened state t (toPeer state.offerer
          (deliverAll state a requestId tickets pathAuth number pending)) := by
  induction pending generalizing number with
  | nil =>
      refine ⟨rfl, ?_⟩
      rintro t ⟨entry, hentry, -⟩
      cases hentry
  | cons entry rest ih =>
      obtain ⟨hfirst, hopened⟩ := deliver_view requestId pathAuth hne number
        fun t d h => htickets t d ⟨entry, List.mem_cons_self, h⟩
      obtain ⟨hrest, hopened'⟩ := ih (number + 1) fun t d ⟨entry', hentry', h⟩ =>
        htickets t d ⟨entry', List.mem_cons_of_mem _ hentry', h⟩
      refine ⟨?_, ?_⟩
      · rw [deliverAll, toPeer_append, view_append, hfirst, hrest]
        rfl
      · rintro t ⟨entry', hentry', d, hoffer⟩ hauth
        rw [deliverAll, toPeer_append]
        rcases List.mem_cons.1 hentry' with rfl | hentry'
        · exact (hopened t d hoffer hauth).append _
        · obtain ⟨hauthorized, hopening⟩ := hopened' t ⟨entry', hentry', d, hoffer⟩ hauth
          rw [Opened, view_append]
          exact ⟨List.mem_append_right _ hauthorized, List.mem_append_right _ hopening⟩

end

/-! ## Before and after the join -/

/-- What stays for the whole of a pairing. -/
structure SamePairing (s₀ s : Rendezvous) : Prop where
  names : s.locked.state.id = s₀.locked.state.id ∧
    s.locked.state.relayId = s₀.locked.state.relayId ∧
    s.locked.state.relayTicket = s₀.locked.state.relayTicket
  offerer : s.locked.state.offerer = s₀.locked.state.offerer
  random : s.locked.random = s₀.locked.random

theorem SamePairing.kept (h : SamePairing s₀ s) (hkept : Kept s.locked s'.locked) :
    SamePairing s₀ s' :=
  ⟨⟨hkept.names.1.trans h.names.1, hkept.names.2.1.trans h.names.2.1,
    hkept.names.2.2.trans h.names.2.2⟩, hkept.offerer.trans h.offerer, hkept.random.trans h.random⟩

theorem SamePairing.gets (h : SamePairing s₀ s) (authorized : TransferId → Bool) :
    gets s.locked.state authorized = gets s₀.locked.state authorized := by
  funext message
  unfold Server.gets blankTicket opening
  rw [h.names.1, h.names.2.1, h.names.2.2]

theorem SamePairing.opened (h : SamePairing s₀ s) {t : TransferId} {queue : List Outgoing} :
    Opened s.locked.state t queue ↔ Opened s₀.locked.state t queue := by
  unfold Opened opening
  rw [h.names.2.1, h.names.2.2]

/-- The messages are pending and there is no accepter yet. -/
structure Gathered (s₀ : Rendezvous) (a : Peer) (s : Rendezvous) (messages : List Message) :
    Prop where
  same : SamePairing s₀ s
  offerer : OffererAt (s.tasks s₀.locked.state.offerer) .listening []
  outside : (s.tasks a).role = none ∧ (s.tasks a).sends = [] ∧ (s.tasks a).stage = .listening ∧
    (s.tasks a).reports = false
  vacant : s.locked.state.accepter = none
  pending : s.locked.state.pendingForAccepter.map (·.1) = messages
  digests : ∀ message ∈ messages, ∀ t d, offered message = some (t, d) →
    s.locked.state.digestOf t = some d
  queue : s.queues a = []

/-- The accepter has got these messages, and the offerer may open these transfers. -/
structure Served (s₀ : Rendezvous) (a : Peer) (s : Rendezvous) (messages : List Message)
    (transfers : TransferId → Prop) : Prop where
  same : SamePairing s₀ s
  offerer : OffererAt (s.tasks s₀.locked.state.offerer) .listening []
  accepter : s.locked.state.accepter = some a
  queue : view (s.queues a) = messages
  opened : ∀ t, transfers t → Opened s₀.locked.state t (s.queues s₀.locked.state.offerer)

section

variable (hne : a ≠ s₀.locked.state.offerer)

include hne

theorem Gathered.turn {messages : List Message} (h : Gathered s₀ a s messages) (turn : Turn)
    (hroutes : s.TurnRoutes s₀.locked.state.offerer turn) :
    Gathered s₀ a (s.takeTurn s₀.locked.state.offerer turn) (messages ++ said [turn]) := by
  cases turn with
  | wait elapsed unixMillis =>
      have hkept : Kept s.locked
          (s.takeTurn s₀.locked.state.offerer (.wait elapsed unixMillis)).locked :=
        Kept.of_state rfl
      rw [show said [Turn.wait elapsed unixMillis] = [] from rfl, List.append_nil]
      exact ⟨h.same.kept hkept, h.offerer, h.outside, h.vacant, h.pending, h.digests, h.queue⟩
  | say message requestId =>
      obtain ⟨task, c, c₀, outs, htask, hreaches, hkept, hdigest, ⟨-, htargets, hc⟩ | ⟨b, hb, -⟩⟩ :=
        handle_conveys h.offerer hroutes
      · have hlocked := hreaches.locked
        rw [hc] at hlocked
        have hthere : (s.takeTurn s₀.locked.state.offerer (.say message requestId)) =
          s.handle s₀.locked.state.offerer message requestId := rfl
        rw [hthere]
        refine ⟨?_, ?_, ?_, ?_, ?_, ?_, ?_⟩
        · have hsame : SamePairing s₀ { s with locked := c₀ } := h.same.kept hkept
          refine ⟨?_, ?_, ?_⟩
          · rw [hlocked]
            exact hsame.names
          · rw [hlocked]
            exact hsame.offerer
          · rw [hlocked]
            exact hsame.random
        · rw [hreaches.task]
          exact htask
        · rw [hreaches.tasks, Function.update_of_ne hne]
          exact h.outside
        · rw [hlocked]
          exact hkept.accepter.trans h.vacant
        · rw [hlocked]
          simp only [List.map_append, hkept.pending, h.pending]
          rfl
        · rw [hlocked]
          intro m hm t d hoffer
          rcases List.mem_append.1 hm with hm | hm
          · exact hkept.digests t d (h.digests m hm t d hoffer)
          · rw [List.mem_singleton.1 hm] at hoffer
            exact hdigest t d hoffer
        · rw [hreaches.queues, foldl_pushed, h.queue, toPeer, List.filter_eq_nil_iff.2]
          · rfl
          · intro out hout
            rw [htargets out hout, h.same.offerer]
            simpa using Ne.symm hne
      · rw [h.vacant] at hb
        cases hb

theorem Served.turn {messages : List Message} {transfers : TransferId → Prop}
    (h : Served s₀ a s messages transfers) (turn : Turn)
    (hroutes : s.TurnRoutes s₀.locked.state.offerer turn) :
    Served s₀ a (s.takeTurn s₀.locked.state.offerer turn)
      (messages ++ ((said [turn]).filter writable).flatMap (gets s₀.locked.state fun _ => true))
      (fun t => transfers t ∨ ∃ message ∈ said [turn], ∃ d, offered message = some (t, d)) := by
  cases turn with
  | wait elapsed unixMillis =>
      have hkept : Kept s.locked
          (s.takeTurn s₀.locked.state.offerer (.wait elapsed unixMillis)).locked :=
        Kept.of_state rfl
      rw [show said [Turn.wait elapsed unixMillis] = [] from rfl, List.filter_nil,
        List.flatMap_nil, List.append_nil]
      refine ⟨h.same.kept hkept, h.offerer, h.accepter, h.queue, ?_⟩
      rintro t (ht | ⟨_, hm, -⟩)
      · exact h.opened t ht
      · cases hm
  | say message requestId =>
      obtain ⟨task, c, c₀, outs, htask, hreaches, hkept, -,
        ⟨hvacant, -⟩ | ⟨b, hb, rfl, hforwards⟩⟩ :=
        handle_conveys h.offerer hroutes
      · rw [h.accepter] at hvacant
        cases hvacant
      · rw [h.accepter] at hb
        cases hb
        have hthere : (s.takeTurn s₀.locked.state.offerer (.say message requestId)) =
          s.handle s₀.locked.state.offerer message requestId := rfl
        have hgot : view (toPeer a outs) =
              (([message] : List Message).filter writable).flatMap
                (gets s₀.locked.state fun _ => true) ∧
            ∀ t d, offered message = some (t, d) →
              Opened s₀.locked.state t (toPeer s₀.locked.state.offerer outs) := by
          rcases hforwards with ⟨hwritable, hforwards⟩ | ⟨hrefused, htargets⟩
          · obtain ⟨hview, hopened⟩ := forwards_view hforwards h.accepter
              (by rw [h.same.offerer]; exact hne)
            rw [h.same.gets] at hview
            refine ⟨by simp [hview, hwritable], fun t d hoffer => ?_⟩
            have hopen := hopened t d hoffer
            rwa [h.same.offerer, h.same.opened] at hopen
          · refine ⟨?_, fun t d hoffer => ?_⟩
            · rw [List.filter_cons_of_neg (by simp [hrefused]), toPeer, List.filter_eq_nil_iff.2]
              · rfl
              · intro out hout
                rw [htargets out hout]
                simpa using Ne.symm hne
            · rw [offered_of_refused hrefused] at hoffer
              cases hoffer
        obtain ⟨hview, hopened⟩ := hgot
        rw [hthere]
        refine ⟨h.same.kept ?_, ?_, ?_, ?_, ?_⟩
        · rw [hreaches.locked]
          exact hkept
        · rw [hreaches.task]
          exact htask
        · rw [hreaches.locked]
          exact hkept.accepter.trans h.accepter
        · rw [hreaches.queues, foldl_pushed, view_append, h.queue, hview]
          rfl
        · intro t ht
          rw [hreaches.queues, foldl_pushed]
          rcases ht with ht | ⟨m, hm, d, hoffer⟩
          · exact (h.opened t ht).append _
          · obtain rfl : m = message := by simpa [said] using hm
            have hopen := hopened t d hoffer
            rw [Opened, view_append]
            exact ⟨List.mem_append_right _ hopen.1, List.mem_append_right _ hopen.2⟩

/-- The transfer offered first. -/
def firstTransfer (messages : List Message) : Option TransferId :=
  (messages.findSome? offered).map (·.1)

omit hne in
omit hne in
/-- Short of a failure the transfer offered first is the one authorized. -/
theorem authorizes_eq {pending : List (Message × UInt64)}
    {pathAuth : Option (TransferId × Option PathAuthorization)} (hworks : c.Works)
    (h : FirstAuthorized c pending pathAuth) :
    authorizes pathAuth = fun t => firstTransfer (pending.map (·.1)) == some t := by
  have hfirst : firstTransfer (pending.map (·.1)) = (firstOffer pending).map (·.1) := by
    rw [firstTransfer, firstOffer, List.findSome?_map]
    rfl
  rw [hfirst]
  unfold FirstAuthorized at h
  cases hcase : firstOffer pending with
  | none =>
      rw [hcase] at h
      rw [h]
      rfl
  | some o =>
      rw [hcase] at h
      obtain ⟨authorization, rfl, hsome⟩ := h
      obtain ⟨authorization', rfl⟩ := Option.isSome_iff_exists.1 (hsome hworks)
      rfl

theorem Gathered.joins {messages : List Message} (h : Gathered s₀ a s messages)
    (hworks : s₀.locked.Works) {code : PairingCode} {client : ClientInstanceId}
    {key : Vector UInt8 32} {requestId : UInt64}
    (hjoined :
      (s.handle a (.pairing (.joinPairing code client key)) requestId).locked.state.accepter =
        some a) :
    Served s₀ a (s.handle a (.pairing (.joinPairing code client key)) requestId)
      (.pairing (.pairingJoined s₀.locked.state.id offererHint accepterHint []) ::
        (messages.takeWhile writable).flatMap
          (gets s₀.locked.state fun t => firstTransfer messages == some t))
      (fun t => firstTransfer messages = some t ∧
        ∃ message ∈ messages.takeWhile writable, ∃ d, offered message = some (t, d)) := by
  have hne' : a ≠ s.locked.state.offerer := by
    rw [h.same.offerer]
    exact hne
  have hdigest {entry : Message × UInt64} (hentry : entry ∈ s.locked.state.pendingForAccepter)
      {t : TransferId} {d : Digest} (hoffer : offered entry.1 = some (t, d)) :
      s.locked.state.digestOf t = some d := by
    refine h.digests entry.1 ?_ t d hoffer
    rw [← h.pending]
    exact List.mem_map_of_mem hentry
  have hworks' : s.locked.Works := by
    rw [Locked.Works, h.same.random]
    exact hworks
  obtain ⟨task, c, outs, hreaches, hjoins, hdelivers⟩ := handle_joins h.outside.1 h.outside.2.1
    h.outside.2.2.1 h.outside.2.2.2 h.vacant hworks'
    (fun t hoffered => by
      obtain ⟨entry, hentry, d, hoffer⟩ := hoffered
      exact isSome_transfers.2 ⟨d, hdigest hentry hoffer⟩) hjoined
  obtain ⟨ticket, requestId', tickets, pathAuth, htickets, hauth, houts⟩ := hdelivers.takeWhile
  rw [houts] at hreaches
  have hauthorizes := authorizes_eq hworks' hauth
  rw [h.pending] at hauthorizes
  have hwritten : (s.locked.state.pendingForAccepter.takeWhile fun entry => writable entry.1).map
      (·.1) = messages.takeWhile writable := by
    rw [← h.pending, List.takeWhile_map]
    rfl
  have hfound : ∀ t d, (∃ entry ∈ s.locked.state.pendingForAccepter.takeWhile
      (fun entry => writable entry.1), offered entry.1 = some (t, d)) →
      ∃ m, tickets t = some m ∧ IsTicket s.locked.state.id t d m := by
    rintro t d ⟨entry, hentry, hoffer⟩
    have hpending := (List.takeWhile_prefix _).subset hentry
    obtain ⟨m, hm⟩ := Option.isSome_iff_exists.1 (htickets.all t ⟨entry, hpending, d, hoffer⟩)
    obtain ⟨entry', hentry', d', hoffer', hticket⟩ := htickets.ticket t m hm
    have hsame := hdigest hpending hoffer
    rw [hdigest hentry' hoffer'] at hsame
    cases hsame
    exact ⟨m, hm, hticket⟩
  obtain ⟨hview, hopened⟩ := deliverAll_view requestId' pathAuth hne' 0 hfound
  rw [hwritten, hauthorizes, h.same.gets] at hview
  refine ⟨?_, ?_, ?_, ?_, ?_⟩
  · have hkept := hjoins.kept
    rw [← hreaches.locked] at hkept
    exact (show SamePairing s₀ { s with locked := s.locked.joinedBy a } from
      ⟨h.same.names, h.same.offerer, h.same.random⟩).kept hkept
  · rw [hreaches.tasks, Function.update_of_ne (Ne.symm hne)]
    exact h.offerer
  · rw [hreaches.locked]
    exact hjoins.accepter
  · rw [hreaches.queues, foldl_pushed, h.queue, List.nil_append, toPeer_append, view_append, hview]
    have hne'' : ¬ s.locked.state.offerer = a := Ne.symm hne'
    simp [toPeer, view, hne'', blank, h.same.names.1]
  · rintro t ⟨ht, message, hmessage, d, hoffer⟩
    rw [← hwritten] at hmessage
    obtain ⟨entry, hentry, rfl⟩ := List.mem_map.1 hmessage
    have hopen := hopened t ⟨entry, hentry, d, hoffer⟩
      (by rw [hauthorizes, ht]; exact beq_self_eq_true _)
    rw [hreaches.queues, foldl_pushed, toPeer_append, ← h.same.offerer, ← h.same.opened, Opened,
      view_append, view_append]
    exact ⟨List.mem_append_right _ (List.mem_append_right _ hopen.1),
      List.mem_append_right _ (List.mem_append_right _ hopen.2)⟩

/-! ## The runs -/

omit hne in
theorem said_cons (turn : Turn) (turns : List Turn) :
    said (turn :: turns) = said [turn] ++ said turns := by
  cases turn with
  | say | wait => rfl

theorem Gathered.run {messages : List Message} {turns : List Turn}
    (h : Gathered s₀ a s messages)
    (hroutes : Meets (Rendezvous.takeTurn s₀.locked.state.offerer)
      (Rendezvous.TurnRoutes s₀.locked.state.offerer) s turns) :
    Gathered s₀ a (turns.foldl (Rendezvous.takeTurn s₀.locked.state.offerer) s)
      (messages ++ said turns) := by
  induction turns generalizing s messages with
  | nil =>
      rw [show said [] = [] from rfl, List.append_nil]
      exact h
  | cons turn turns ih =>
      rw [said_cons, ← List.append_assoc]
      exact ih (h.turn hne turn hroutes.1) hroutes.2

theorem Served.run {messages : List Message} {transfers : TransferId → Prop} {turns : List Turn}
    (h : Served s₀ a s messages transfers)
    (hroutes : Meets (Rendezvous.takeTurn s₀.locked.state.offerer)
      (Rendezvous.TurnRoutes s₀.locked.state.offerer) s turns) :
    Served s₀ a (turns.foldl (Rendezvous.takeTurn s₀.locked.state.offerer) s)
      (messages ++ ((said turns).filter writable).flatMap (gets s₀.locked.state fun _ => true))
      (fun t => transfers t ∨ ∃ message ∈ said turns, ∃ d, offered message = some (t, d)) := by
  induction turns generalizing s messages transfers with
  | nil =>
      rw [show said [] = [] from rfl, List.filter_nil, List.flatMap_nil, List.append_nil]
      refine ⟨h.same, h.offerer, h.accepter, h.queue, ?_⟩
      rintro t (ht | ⟨_, hm, -⟩)
      · exact h.opened t ht
      · cases hm
  | cons turn turns ih =>
      have hrest := ih (h.turn hne turn hroutes.1) hroutes.2
      rw [said_cons, List.filter_append, List.flatMap_append, ← List.append_assoc]
      refine ⟨hrest.same, hrest.offerer, hrest.accepter, hrest.queue, fun t ht => hrest.opened t ?_⟩
      rcases ht with ht | ⟨m, hm, hoffer⟩
      · exact .inl (.inl ht)
      · rcases List.mem_append.1 hm with hm | hm
        · exact .inl (.inr ⟨m, hm, hoffer⟩)
        · exact .inr ⟨m, hm, hoffer⟩

end

/-! ## The two orders compared -/

/-- Every message of the offerer is kept or forwarded, and the accepter joins, so that
the pairing has it from then on. -/
structure JoinsBetween (s : Rendezvous) (offerer accepter : Peer) (join : Message)
    (requestId : UInt64) (before after : List Turn) : Prop where
  routesBefore : Meets (Rendezvous.takeTurn offerer) (Rendezvous.TurnRoutes offerer) s before
  joins : ((before.foldl (Rendezvous.takeTurn offerer) s).handle accepter join
    requestId).locked.state.accepter = some accepter
  routesAfter : Meets (Rendezvous.takeTurn offerer) (Rendezvous.TurnRoutes offerer)
    ((before.foldl (Rendezvous.takeTurn offerer) s).handle accepter join requestId) after

/-- All offers among the messages are of the transfer offered first. -/
def OneTransfer (messages : List Message) : Prop :=
  ∀ message ∈ messages, ∀ t d, offered message = some (t, d) → firstTransfer messages = some t

/-- No message that can be written is behind one that cannot. -/
def Unbroken (messages : List Message) : Prop :=
  messages.Pairwise fun first next => writable next → writable first

theorem offered_blank (message : Message) : offered (blank message) = offered message := by
  match message with
  | .pairing m => cases m <;> rfl
  | .transfer _ => rfl
  | .path _ => rfl

theorem blank_blank (message : Message) : blank (blank message) = blank message := by
  match message with
  | .pairing m => cases m <;> rfl
  | .transfer _ => rfl
  | .path _ => rfl

theorem gets_blank (state : PairingState) (authorized : TransferId → Bool) (message : Message) :
    gets state authorized (blank message) = gets state authorized message := by
  unfold gets
  rw [offered_blank, blank_blank]

theorem flatMap_gets_blank (state : PairingState) (authorized : TransferId → Bool)
    (messages : List Message) : (messages.map blank).flatMap (gets state authorized) =
      messages.flatMap (gets state authorized) := by
  rw [List.flatMap_map, funext (gets_blank state authorized)]

theorem writable_blank (message : Message) : writable (blank message) = writable message := by
  match message with
  | .pairing m => cases m <;> rfl
  | .transfer _ => rfl
  | .path _ => rfl

theorem filter_writable_blank (messages : List Message) :
    (messages.map blank).filter writable = (messages.filter writable).map blank := by
  rw [List.filter_map, show writable ∘ blank = writable from funext writable_blank]

/-- Nothing that can be written is left behind what is written in turn. -/
theorem unbroken_iff {messages : List Message} :
    Unbroken messages ↔ (messages.dropWhile writable).filter writable = [] := by
  unfold Unbroken
  induction messages with
  | nil => simp
  | cons message messages ih =>
      cases hwritable : writable message with
      | true => simp [hwritable, ih]
      | false =>
          rw [List.pairwise_cons, List.dropWhile_cons_of_neg (by simp [hwritable]),
            List.filter_cons_of_neg (by simp [hwritable]), List.filter_eq_nil_iff]
          refine ⟨fun h next hnext hcan => ?_, fun h => ⟨fun next hnext hcan => ?_, ?_⟩⟩
          · have hfirst := h.1 next hnext hcan
            rw [hwritable] at hfirst
            cases hfirst
          · exact (h next hnext hcan).elim
          · exact List.pairwise_of_forall_mem_list fun _ _ next hnext hcan =>
              (h next hnext hcan).elim

theorem filter_writable_eq (messages : List Message) :
    messages.filter writable =
      messages.takeWhile writable ++ (messages.dropWhile writable).filter writable := by
  conv_lhs => rw [← List.takeWhile_append_dropWhile (p := writable) (l := messages),
    List.filter_append]
  rw [List.filter_eq_self.2 (List.all_eq_true.1 List.all_takeWhile)]

theorem gets_ne_nil (state : PairingState) (authorized : TransferId → Bool) (message : Message) :
    gets state authorized message ≠ [] := by
  unfold gets
  split
  · simp
  · simp

theorem length_gets_le (state : PairingState) (authorized : TransferId → Bool)
    (message : Message) :
    (gets state authorized message).length ≤ (gets state (fun _ => true) message).length := by
  unfold gets
  split
  · exact Nat.le_refl _
  · next t _ _ =>
      by_cases h : authorized t
      · simp [h]
      · simp [h]

theorem length_flatMap_gets_le (state : PairingState) (authorized : TransferId → Bool)
    (messages : List Message) :
    (messages.flatMap (gets state authorized)).length ≤
      (messages.flatMap (gets state fun _ => true)).length := by
  induction messages with
  | nil => exact Nat.le_refl _
  | cons message messages ih =>
      have hhead := length_gets_le state authorized message
      simp only [List.flatMap_cons, List.length_append]
      omega

/-- The accepter misses something for every offer that is not authorized. -/
theorem flatMap_gets_eq_iff (state : PairingState) (authorized : TransferId → Bool)
    (messages : List Message) :
    messages.flatMap (gets state authorized) = messages.flatMap (gets state fun _ => true) ↔
      ∀ message ∈ messages, ∀ t d, offered message = some (t, d) → authorized t := by
  induction messages with
  | nil => simp
  | cons message messages ih =>
      rw [List.flatMap_cons, List.flatMap_cons, List.forall_mem_cons]
      constructor
      · intro heq
        have hhead := length_gets_le state authorized message
        have hrest := length_flatMap_gets_le state authorized messages
        have hlength := congrArg List.length heq
        simp only [List.length_append] at hlength
        obtain ⟨hsame, htail⟩ := List.append_inj heq (by omega)
        refine ⟨fun t d hoffer => ?_, ih.1 htail⟩
        by_contra hnot
        have hshort := congrArg List.length hsame
        simp [gets, hoffer, hnot] at hshort
      · rintro ⟨hhead, hrest⟩
        rw [ih.2 hrest]
        congr 1
        unfold gets
        split
        · rfl
        · next t d hoffer => rw [hhead t d hoffer]

/-- What is written of the pending messages in turn is all of what can be forwarded,
exactly if nothing is left behind and every offer is authorized. -/
theorem takeWhile_gets_eq_iff (state : PairingState) (messages : List Message) :
    (messages.takeWhile writable).flatMap
          (gets state fun t => firstTransfer messages == some t) =
        (messages.filter writable).flatMap (gets state fun _ => true) ↔
      OneTransfer messages ∧ Unbroken messages := by
  rw [filter_writable_eq, List.flatMap_append, unbroken_iff]
  constructor
  · intro heq
    have hless := length_flatMap_gets_le state (fun t => firstTransfer messages == some t)
      (messages.takeWhile writable)
    have hlength := congrArg List.length heq
    rw [List.length_append] at hlength
    have hnone : ((messages.dropWhile writable).filter writable).flatMap
        (gets state fun _ => true) = [] := List.eq_nil_of_length_eq_zero (by omega)
    have hleft : (messages.dropWhile writable).filter writable = [] := by
      cases hrest : (messages.dropWhile writable).filter writable with
      | nil => rfl
      | cons message rest =>
          rw [hrest, List.flatMap_cons, List.append_eq_nil_iff] at hnone
          exact (gets_ne_nil _ _ _ hnone.1).elim
    rw [hnone, List.append_nil, flatMap_gets_eq_iff] at heq
    refine ⟨fun message hmessage t d hoffer => ?_, hleft⟩
    have hthere : message ∈ messages.filter writable :=
      List.mem_filter.2 ⟨hmessage, writable_of_offered hoffer⟩
    rw [filter_writable_eq, hleft, List.append_nil] at hthere
    simpa using heq message hthere t d hoffer
  · rintro ⟨hone, hleft⟩
    rw [hleft, List.flatMap_nil, List.append_nil, flatMap_gets_eq_iff]
    intro message hmessage t d hoffer
    simpa using hone message ((List.takeWhile_prefix _).subset hmessage) t d hoffer

section

variable (config : ServerConfig) (id : PairingId) (relayId : RelayId)
  (relayTicket : SessionTicket) (offerer : Peer) (now lifetime : Nat) (unixMillis : UInt64)
  (random : Nat → Option (Vector UInt8 32))

theorem start_gathered {accepter : Peer} (hne : accepter ≠ offerer) :
    Gathered (Rendezvous.start config id relayId relayTicket offerer now lifetime unixMillis random)
      accepter
      (Rendezvous.start config id relayId relayTicket offerer now lifetime unixMillis random)
      [] where
  same := ⟨⟨rfl, rfl, rfl⟩, rfl, rfl⟩
  offerer := by
    simp only [Rendezvous.start, Function.update_self]
    exact ⟨rfl, rfl, rfl⟩
  outside := by
    simp [Rendezvous.start, Function.update_of_ne hne]
  vacant := rfl
  pending := rfl
  digests := fun _ hm => by cases hm
  queue := rfl

/-- What the two have got when the accepter has joined between two turns. -/
theorem joinBetween_served (hworks : ∀ n, (random n).isSome) {accepter : Peer}
    (hne : accepter ≠ offerer) {code : PairingCode} {client : ClientInstanceId}
    {key : Vector UInt8 32} {requestId : UInt64} {before after : List Turn} {s₀ : Rendezvous}
    (hs₀ : s₀ =
      Rendezvous.start config id relayId relayTicket offerer now lifetime unixMillis random)
    (hjoins : JoinsBetween s₀ offerer accepter (.pairing (.joinPairing code client key)) requestId
      before after) :
    Served s₀ accepter (s₀.joinBetween offerer accepter (.pairing (.joinPairing code client key))
      requestId before after)
      (.pairing (.pairingJoined id offererHint accepterHint []) ::
        ((said before).takeWhile writable).flatMap
          (gets s₀.locked.state fun t => firstTransfer (said before) == some t) ++
        ((said after).filter writable).flatMap (gets s₀.locked.state fun _ => true))
      (fun t => (firstTransfer (said before) = some t ∧
          ∃ message ∈ (said before).takeWhile writable, ∃ d, offered message = some (t, d)) ∨
        ∃ message ∈ said after, ∃ d, offered message = some (t, d)) := by
  have hgathered := start_gathered config id relayId relayTicket offerer now lifetime unixMillis
    random hne
  rw [← hs₀] at hgathered
  have hofferer : s₀.locked.state.offerer = offerer := by
    rw [hs₀]
    rfl
  have hid : s₀.locked.state.id = id := by
    rw [hs₀]
    rfl
  have hne' : accepter ≠ s₀.locked.state.offerer := by rwa [hofferer]
  have hworks' : s₀.locked.Works := by
    rw [hs₀]
    exact hworks
  obtain ⟨hbefore, hjoined, hafter⟩ := hjoins
  rw [← hofferer] at hbefore hjoined hafter
  have hjoined' := (hgathered.run hne' hbefore).joins hne' hworks' hjoined
  have hserved := hjoined'.run hne' hafter
  rw [hid] at hserved
  rw [← hofferer]
  exact hserved

/-- The accepter gets the same whether it joins between two turns or before all of
them, and the offerer may open every transfer offered, exactly if all offers that
were pending at the join are of one transfer and none of the pending messages is
behind one that cannot be written. -/
theorem late_join_eq_early_join (hworks : ∀ n, (random n).isSome) {accepter : Peer}
    (hne : accepter ≠ offerer) {code : PairingCode} {client : ClientInstanceId}
    {key : Vector UInt8 32} {requestId : UInt64} {join : Message}
    (hjoin : join = .pairing (.joinPairing code client key)) {before after turns : List Turn}
    {s₀ late early : Rendezvous}
    (hs₀ : s₀ =
      Rendezvous.start config id relayId relayTicket offerer now lifetime unixMillis random)
    (hlate : late = s₀.joinBetween offerer accepter join requestId before after)
    (hearly : early = s₀.joinBetween offerer accepter join requestId [] turns)
    (hjoinsLate : JoinsBetween s₀ offerer accepter join requestId before after)
    (hjoinsEarly : JoinsBetween s₀ offerer accepter join requestId [] turns)
    (hsame : (said (before ++ after)).map blank = (said turns).map blank) :
    (view (late.queues accepter) = view (early.queues accepter) ∧
      ∀ t, (∃ message ∈ said (before ++ after), ∃ d, offered message = some (t, d)) →
        Opened s₀.locked.state t (late.queues offerer)) ↔
      OneTransfer (said before) ∧ Unbroken (said before) := by
  subst hjoin
  have hofferer : s₀.locked.state.offerer = offerer := by
    rw [hs₀]
    rfl
  have hserved := joinBetween_served config id relayId relayTicket offerer now lifetime unixMillis
    random hworks hne hs₀ hjoinsLate
  have hserved' := joinBetween_served config id relayId relayTicket offerer now lifetime unixMillis
    random hworks hne hs₀ hjoinsEarly
  rw [← hlate] at hserved
  rw [← hearly] at hserved'
  have hsaid : said (before ++ after) = said before ++ said after := List.filterMap_append ..
  have hall : ((said turns).filter writable).flatMap (gets s₀.locked.state fun _ => true) =
      ((said before).filter writable).flatMap (gets s₀.locked.state fun _ => true) ++
        ((said after).filter writable).flatMap (gets s₀.locked.state fun _ => true) := by
    rw [← flatMap_gets_blank, ← filter_writable_blank, ← hsame, filter_writable_blank,
      flatMap_gets_blank, hsaid, List.filter_append, List.flatMap_append]
  have hview : view (late.queues accepter) = view (early.queues accepter) ↔
      OneTransfer (said before) ∧ Unbroken (said before) := by
    rw [hserved.queue, hserved'.queue, show said [] = [] from rfl, List.takeWhile_nil,
      List.flatMap_nil, hall]
    simp only [List.cons_append, List.cons.injEq, true_and, List.nil_append,
      List.append_cancel_right_eq]
    exact takeWhile_gets_eq_iff ..
  refine ⟨fun h => hview.1 h.1, fun h => ⟨hview.2 h, ?_⟩⟩
  rintro t ⟨message, hmessage, d, hoffer⟩
  rw [← hofferer]
  refine hserved.opened t ?_
  rw [hsaid] at hmessage
  rcases List.mem_append.1 hmessage with hmessage | hmessage
  · have hthere : message ∈ (said before).filter writable :=
      List.mem_filter.2 ⟨hmessage, writable_of_offered hoffer⟩
    rw [filter_writable_eq, unbroken_iff.1 h.2, List.append_nil] at hthere
    exact .inl ⟨h.1 message hmessage t d hoffer, message, hthere, d, hoffer⟩
  · exact .inr ⟨message, hmessage, d, hoffer⟩

end

/-! ## Two offers -/

instance (offerer : Peer) (s : Rendezvous) (turn : Turn) :
    Decidable (s.TurnRoutes offerer turn) :=
  inferInstanceAs (Decidable (_ = _))

/-- The offerer offers two transfers. -/
def twoOffers : List Turn := [.say (sampleOffer 4) 1, .say (sampleOffer 5) 2]

/-- If both are pending when the accepter joins, nobody gets the authorization of the
second. -/
theorem second_offer_unauthorized :
    let late := samplePairing.joinBetween 0 1 sampleJoin 3 twoOffers []
    let early := samplePairing.joinBetween 0 1 sampleJoin 3 [] twoOffers
    JoinsBetween samplePairing 0 1 sampleJoin 3 twoOffers [] ∧
      JoinsBetween samplePairing 0 1 sampleJoin 3 [] twoOffers ∧
      view (late.queues 1) ≠ view (early.queues 1) ∧
      ¬ Opened samplePairing.locked.state (Vector.replicate 16 5) (late.queues 0) := by
  refine ⟨⟨by decide +kernel, by decide +kernel, trivial⟩,
    ⟨trivial, by decide +kernel, by decide +kernel⟩, by decide +kernel, ?_⟩
  unfold Opened
  decide +kernel

/-- An offer that is pending when the accepter joins, and one after it. -/
theorem late_join_eq_early_join_twoOffers :
    view ((samplePairing.joinBetween 0 1 sampleJoin 3 [.say (sampleOffer 4) 1]
        [.say (sampleOffer 5) 2]).queues 1) =
      view ((samplePairing.joinBetween 0 1 sampleJoin 3 [] twoOffers).queues 1) := by
  refine ((late_join_eq_early_join {} (Vector.replicate 16 1) (Vector.replicate 16 2)
    (List.replicate 32 3) 0 0 600000000000 0 sampleRandom (fun _ => rfl) (by decide) rfl rfl rfl rfl
    ⟨by decide +kernel, by decide +kernel, by decide +kernel⟩
    ⟨trivial, by decide +kernel, by decide +kernel⟩ rfl).2 ⟨?_, ?_⟩).1
  · intro message hmessage t d hoffer
    obtain rfl := List.mem_singleton.1 hmessage
    cases hoffer
    rfl
  · exact List.pairwise_singleton ..

/-- A response that has observed port 0, which is read but cannot be written, and an
offer behind it: if both are pending, the join stops at the response. -/
example :
    let turns : List Turn := [.say portless.message 1, .say (sampleOffer 4) 2]
    let late := samplePairing.joinBetween 0 1 sampleJoin 3 turns []
    let early := samplePairing.joinBetween 0 1 sampleJoin 3 [] turns
    OneTransfer (said turns) ∧ JoinsBetween samplePairing 0 1 sampleJoin 3 turns [] ∧
      JoinsBetween samplePairing 0 1 sampleJoin 3 [] turns ∧
      (late.queues 1).length = 1 ∧ (early.queues 1).length = 5 := by
  refine ⟨?_, ⟨by decide +kernel, by decide +kernel, trivial⟩,
    ⟨trivial, by decide +kernel, by decide +kernel⟩, by decide +kernel, by decide +kernel⟩
  intro message hmessage t d hoffer
  rcases List.mem_cons.1 hmessage with rfl | hmessage
  · cases hoffer
  · obtain rfl := List.mem_singleton.1 hmessage
    cases hoffer
    decide +kernel

end DartUdp.Server
