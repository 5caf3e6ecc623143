import DartUdp.Lib.Queue
import DartUdp.Proofs.ControlMessages
import DartUdp.Server.Rendezvous

/-!
# What the sections do to the pairing

One lemma a section. The sections of `route_message` keep the accepter and what is
pending, and never take an authorization or a resume state away; `join_pairing` sets the
accepter and empties what is pending together, or leaves both alone.

The results are `offerRoute_ends` and `joinPairing_ends`: what is written for a
message that is routed, and what for a join. `deliverAll_takeWhile` says where a
join stops that cannot write a message.
-/

namespace DartUdp.Server

open DartUdp.Lib DartUdp.Protocol
open DartUdp.Transfer (TransferId Digest)

variable {c c' : Locked}

/-! ## What stays -/

/-- The digest of the manifest a transfer was offered with. -/
def PairingState.digestOf (state : PairingState) (t : TransferId) : Option Digest :=
  (state.transfers t).map (·.manifestDigest)

/-- The accepter and the pending messages are the same, and nothing that was
prepared for a transfer is gone. -/
structure Kept (c c' : Locked) : Prop where
  names : c'.state.id = c.state.id ∧ c'.state.relayId = c.state.relayId ∧
    c'.state.relayTicket = c.state.relayTicket
  random : c'.random = c.random
  offerer : c'.state.offerer = c.state.offerer
  accepter : c'.state.accepter = c.state.accepter
  pending : c'.state.pendingForAccepter = c.state.pendingForAccepter
  paths : ∀ t, (c.state.pathAuthorizations t).isSome → (c'.state.pathAuthorizations t).isSome
  digests : ∀ t d, c.state.digestOf t = some d → c'.state.digestOf t = some d

instance : Std.Refl Kept :=
  ⟨fun _ => ⟨⟨rfl, rfl, rfl⟩, rfl, rfl, rfl, rfl, fun _ h => h, fun _ _ h => h⟩⟩

instance : IsTrans Locked Kept :=
  ⟨fun _ _ _ h h' => ⟨⟨h'.names.1.trans h.names.1, h'.names.2.1.trans h.names.2.1,
      h'.names.2.2.trans h.names.2.2⟩, h'.random.trans h.random, h'.offerer.trans h.offerer,
    h'.accepter.trans h.accepter, h'.pending.trans h.pending, fun t ht => h'.paths t (h.paths t ht),
    fun t d ht => h'.digests t d (h.digests t d ht)⟩⟩

theorem isSome_transfers {state : PairingState} {t : TransferId} :
    (state.transfers t).isSome ↔ ∃ d, state.digestOf t = some d := by
  rw [← Option.isSome_iff_exists, PairingState.digestOf, Option.isSome_map]

theorem Kept.transfers (h : Kept c c') (t : TransferId) (ht : (c.state.transfers t).isSome) :
    (c'.state.transfers t).isSome := by
  obtain ⟨d, hd⟩ := isSome_transfers.1 ht
  exact isSome_transfers.2 ⟨d, h.digests t d hd⟩

/-- Only the clock, the draws and the number of attempts have changed. -/
theorem Kept.of_state {state : PairingState} {now drawn : Nat} {unixMillis : UInt64}
    (h : state = { c.state with joinAttempts := state.joinAttempts }) :
    Kept c { c with state, now, unixMillis, drawn } := by
  rw [h]
  exact ⟨⟨rfl, rfl, rfl⟩, rfl, rfl, rfl, rfl, fun _ h => h, fun _ _ h => h⟩

/-- A transfer is prepared anew, or again with its digest. -/
theorem Kept.transfer (h : Kept c c') {t : TransferId} {resume : ResumeState}
    (hsame : ∀ d, c.state.digestOf t = some d → resume.manifestDigest = d) :
    Kept c { c' with state := { c'.state with
      transfers := Function.update c'.state.transfers t (some resume) } } := by
  refine ⟨h.names, h.random, h.offerer, h.accepter, h.pending, h.paths, fun t' d hd => ?_⟩
  by_cases ht : t' = t
  · subst ht
    simp only [PairingState.digestOf, Function.update_self, Option.map_some, hsame d hd]
  · have hkept := h.digests t' d hd
    simp only [PairingState.digestOf, Function.update_of_ne ht] at hkept ⊢
    exact hkept

theorem isSome_update {α β : Type} [DecidableEq α] {f : α → Option β} {a t : α} {b : β}
    (h : (f t).isSome) : (Function.update f a (some b) t).isSome := by
  by_cases ht : t = a
  · rw [ht, Function.update_self]
    rfl
  · rwa [Function.update_of_ne ht]

/-- The random source does not fail. -/
def Locked.Works (c : Locked) : Prop := ∀ n, (c.random n).isSome

/-- The error of a random source that has failed. -/
def Locked.Lacks (c : Locked) (e : ServerError) : Prop := e = randomnessUnavailable ∧ ¬ c.Works

theorem Kept.lacks {e : ServerError} (h : Kept c c') (he : c'.Lacks e) : c.Lacks e := by
  refine ⟨he.1, fun hworks => he.2 ?_⟩
  rw [Locked.Works, h.random]
  exact hworks

theorem drawRandom_kept : Ends drawRandom c (fun _ c' => Kept c c')
    fun e c' => Kept c c' ∧ c.Lacks e := by
  rw [drawRandom, ends_bind, ends_get, ends_bind, ends_set]
  split
  · exact Kept.of_state rfl
  · next hnone =>
      refine ⟨Kept.of_state rfl, rfl, fun hworks => ?_⟩
      have hsome := hworks c.drawn
      rw [hnone] at hsome
      cases hsome

theorem randomTicket_kept : Ends randomTicket c (fun _ c' => Kept c c')
    fun e c' => Kept c c' ∧ c.Lacks e := by
  rw [randomTicket, ends_bind]
  exact drawRandom_kept.mono (fun _ _ h => h) fun _ _ h => h

/-! ## Preparing a transfer -/

theorem ensurePathAuthorization_kept (t : TransferId) :
    Ends (ensurePathAuthorization t) c
      (fun _ c' => Kept c c' ∧ (c'.state.pathAuthorizations t).isSome)
      fun e c' => Kept c c' ∧ c.Lacks e := by
  rw [ensurePathAuthorization, ends_bind, ends_get]
  split
  · next authorization hsome =>
      refine ⟨Std.Refl.refl c, ?_⟩
      obtain ⟨hpath, -⟩ := Option.filter_eq_some_iff.1 hsome
      rw [hpath]
      rfl
  · rw [ends_bind]
    refine drawRandom_kept.mono (fun token c' h => ?_) fun _ _ h => h
    refine ⟨⟨h.names, h.random, h.offerer, h.accepter, h.pending,
      fun t' ht' => isSome_update (h.paths t' ht'), h.digests⟩, ?_⟩
    simp

theorem ensureResumeState_kept (t : TransferId) (digest : Digest) :
    Ends (ensureResumeState t digest) c
      (fun resume c' => Kept c c' ∧ c'.state.transfers t = some resume ∧
        resume.manifestDigest = digest) fun _ c' => Kept c c' := by
  rw [ensureResumeState, ends_bind, ends_get]
  split
  · next existing hsome =>
      rw [ends_ite]
      exact ⟨fun _ => Std.Refl.refl c, fun hsame => ⟨Std.Refl.refl c, hsome, not_not.1 hsame⟩⟩
  · next hnone =>
      rw [ends_bind]
      refine randomTicket_kept.mono (fun ticket c' h => ?_) fun _ _ h => h.1
      refine ⟨h.transfer ?_, Function.update_self .., rfl⟩
      intro d hd
      rw [PairingState.digestOf, hnone] at hd
      cases hd

theorem ensureAccepterTicket_kept {t : TransferId} {resume : ResumeState}
    (hresume : c.state.transfers t = some resume) :
    Ends (ensureAccepterTicket t resume) c (fun _ c' => Kept c c')
      fun e c' => Kept c c' ∧ c.Lacks e := by
  rw [ensureAccepterTicket]
  split
  · exact Std.Refl.refl c
  · rw [ends_bind]
    refine randomTicket_kept.mono (fun ticket c' h => h.transfer ?_) fun _ _ h => h
    intro d hd
    rw [PairingState.digestOf, hresume] at hd
    exact Option.some.inj hd

/-! ## Tickets -/

/-- The transfer whose ticket for the accepter the message is. -/
def ticketOf : Message → Option TransferId
  | .pairing (.resumeTicket _ transferId .accepter ..) => some transferId
  | _ => none

/-- The transfers the pending messages offer. -/
def offeredIn (pending : List (Message × UInt64)) (t : TransferId) : Prop :=
  ∃ entry ∈ pending, ∃ digest, offered entry.1 = some (t, digest)

/-- The message is the accepter's ticket for a transfer offered with the digest. -/
def IsTicket (id : PairingId) (t : TransferId) (d : Digest) (message : Message) : Prop :=
  ∃ expiresAt ticket, message = resumeTicketMessage id t .accepter d expiresAt ticket

theorem IsTicket.ticketOf {id : PairingId} {t : TransferId} {d : Digest} {message : Message}
    (h : IsTicket id t d message) : ticketOf message = some t := by
  obtain ⟨expiresAt, ticket, rfl⟩ := h
  rfl

/-- The tickets found are those of the pending offers. -/
structure Tickets (id : PairingId) (pending : List (Message × UInt64))
    (tickets : TransferId → Option Message) : Prop where
  ticket : ∀ t m, tickets t = some m →
    ∃ entry ∈ pending, ∃ d, offered entry.1 = some (t, d) ∧ IsTicket id t d m
  all : ∀ t, offeredIn pending t → (tickets t).isSome

theorem Tickets.ticketOf {id : PairingId} {pending : List (Message × UInt64)}
    {tickets : TransferId → Option Message} (h : Tickets id pending tickets) (t : TransferId)
    (m : Message) (hm : tickets t = some m) : ticketOf m = some t := by
  obtain ⟨_, _, _, _, hticket⟩ := h.ticket t m hm
  exact hticket.ticketOf

theorem pendingTickets_kept {done pending : List (Message × UInt64)}
    {tickets : TransferId → Option Message} {id : PairingId} (hid : c.state.id = id)
    (hprepared : ∀ t, offeredIn pending t → (c.state.transfers t).isSome)
    (htickets : Tickets id done tickets) :
    Ends (pendingTickets pending tickets) c
      (fun tickets' c' => Kept c c' ∧ Tickets id (done ++ pending) tickets')
      fun e c' => Kept c c' ∧ c.Lacks e := by
  induction pending generalizing c done tickets with
  | nil =>
      rw [List.append_nil]
      exact ⟨Std.Refl.refl c, htickets⟩
  | cons entry rest ih =>
      obtain ⟨message, requestId⟩ := entry
      have hprepared' {c' : Locked} (h : Kept c c') (t : TransferId) (ht : offeredIn rest t) :
          (c'.state.transfers t).isSome := by
        obtain ⟨entry, hentry, hoffer⟩ := ht
        exact h.transfers t (hprepared t ⟨entry, List.mem_cons_of_mem _ hentry, hoffer⟩)
      have hdone : done ++ (message, requestId) :: rest =
          (done ++ [(message, requestId)]) ++ rest := by
        rw [List.append_assoc]
        rfl
      rw [pendingTickets, hdone]
      split
      · next hnone =>
          refine ih hid (hprepared' (Std.Refl.refl c)) ⟨fun t m hm => ?_, fun t ht => ?_⟩
          · obtain ⟨entry, hentry, hticket⟩ := htickets.ticket t m hm
            exact ⟨entry, List.mem_append_left _ hentry, hticket⟩
          · obtain ⟨entry, hentry, d, hoffer⟩ := ht
            rcases List.mem_append.1 hentry with hentry | hentry
            · exact htickets.all t ⟨entry, hentry, d, hoffer⟩
            · rw [List.mem_singleton.1 hentry, hnone] at hoffer
              cases hoffer
      · next transferId digest hoffer =>
          rw [ends_bind, ends_get]
          split
          · next hmissing =>
              have hsome := hprepared transferId ⟨_, List.mem_cons_self, digest, hoffer⟩
              rw [hmissing] at hsome
              cases hsome
          · next resume hresume =>
              rw [ends_bind]
              refine (ensureAccepterTicket_kept hresume).mono (fun ticket c₁ h₁ => ?_)
                fun _ _ h => h
              refine (ih (h₁.names.1.trans hid) (hprepared' h₁)
                ⟨fun t m hm => ?_, fun t ht => ?_⟩).mono
                (fun _ _ h => ⟨IsTrans.trans _ _ _ h₁ h.1, h.2⟩)
                fun _ _ h => ⟨IsTrans.trans _ _ _ h₁ h.1, h₁.lacks h.2⟩
              · by_cases ht : t = transferId
                · subst ht
                  rw [Function.update_self] at hm
                  cases hm
                  rw [hid]
                  exact ⟨_, List.mem_append_right _ (List.mem_singleton_self _), digest, hoffer, _,
                    _, rfl⟩
                · rw [Function.update_of_ne ht] at hm
                  obtain ⟨entry, hentry, hticket⟩ := htickets.ticket t m hm
                  exact ⟨entry, List.mem_append_left _ hentry, hticket⟩
              · obtain ⟨entry, hentry, d, hoffer'⟩ := ht
                rcases List.mem_append.1 hentry with hentry | hentry
                · exact isSome_update (htickets.all t ⟨entry, hentry, d, hoffer'⟩)
                · rw [List.mem_singleton.1 hentry, hoffer] at hoffer'
                  cases hoffer'
                  rw [Function.update_self]
                  rfl

/-! ## What can be written -/

/-- A message that has been read can be encoded again, whatever its envelope, exactly
if `writable` says so. -/
theorem encode_ok_iff_writable {bytes : Bytes} {decoded : DecodedMessage}
    (h : decodeMessageWithLimits bytes {} = .ok decoded) (requestId : UInt64)
    (flags : MessageFlags) :
    (∃ out, encodeMessageWithLimits decoded.message requestId flags {} = .ok out) ↔
      writable decoded.message := by
  obtain ⟨hlimits, -, hfits, body, hbytes, hread⟩ := decodeMessage_accepted h
  have hvalid : decoded.message.validate = .ok () ↔ writable decoded.message := by
    cases hmessage : decoded.message with
    | pairing m =>
        rw [← hmessage, hread.valid, hmessage]
        exact ⟨fun _ => rfl, fun _ => rfl⟩
    | transfer m =>
        rw [← hmessage, hread.valid, hmessage]
        exact ⟨fun _ => rfl, fun _ => rfl⟩
    | path m =>
        show m.validate = .ok () ↔ (writeError (.path m)).isNone
        unfold writeError
        cases hvalid : m.validate with
        | ok _ => simp [hvalid]
        | error e => simp [hvalid]
  rw [← hvalid]
  constructor
  · rintro ⟨out, hout⟩
    obtain ⟨_, _, hout⟩ := ok_of_bind hout
    exact (ok_of_bind hout).choose_spec.1
  · intro hvalid
    obtain ⟨out, hout, hcased⟩ := hread.written
    have hlen : bytes.length = envelopeLen + out.length := by
      rw [hcased.length, hbytes, List.length_append, length_header]
    refine ⟨_, (encodeMessage_eq _ _ hlimits hvalid hout _).2 ⟨?_, rfl⟩⟩
    rwa [← hlen, hread.type]

theorem writable_of_offered {message : Message} {o : TransferId × Digest}
    (h : offered message = some o) : writable message := by
  unfold offered at h
  split at h
  · rfl
  · cases h

theorem offered_of_refused {message : Message} (h : writable message = false) :
    offered message = none := by
  cases hoffer : offered message with
  | none => rfl
  | some o =>
      rw [writable_of_offered hoffer] at h
      cases h

/-- All of the entries can be written. -/
def Writable (outs : List Outgoing) : Prop := ∀ out ∈ outs, writable out.message

theorem Writable.nil : Writable [] := by
  intro out hout
  cases hout

theorem Writable.append {outs outs' : List Outgoing} (h : Writable outs) (h' : Writable outs') :
    Writable (outs ++ outs') := by
  intro out hout
  exact (List.mem_append.1 hout).elim (h out) (h' out)

theorem writable_of_ticketOf {message : Message} {t : TransferId} (h : ticketOf message = some t) :
    writable message := by
  unfold ticketOf at h
  split at h
  · rfl
  · cases h

/-! ## What is written -/

/-- Neither an offer nor a message of the offerer for its accepter. -/
structure Outgoing.Neutral (out : Outgoing) : Prop where
  message : offered out.message = none
  number : out.number = none

/-- The transfer an entry offers. -/
def offers (out : Outgoing) : Option TransferId := (offered out.message).map (·.1)

/-- The transfer for which an entry is the ticket that the server gives the accepter. -/
def ticketFor (out : Outgoing) : Option TransferId :=
  if out.number.isNone then ticketOf out.message else none

/-- The numbers of the messages of the offerer in a list. -/
def numbers (outs : List Outgoing) : List Nat := outs.filterMap (·.number)

theorem numbers_of_neutral {outs : List Outgoing} (h : ∀ out ∈ outs, out.Neutral) :
    numbers outs = [] :=
  List.filterMap_eq_nil_iff.2 fun out hout => (h out hout).number

theorem Outgoing.Neutral.offers {out : Outgoing} (h : out.Neutral) : offers out = none := by
  rw [Server.offers, h.message]
  rfl

/-! ## The sections of `route_message` -/

/-- The tickets that go ahead of an offer: the offerer's, and the accepter's if there
is an accepter. -/
def TicketSends (state : PairingState) (t : TransferId) (d : Digest) (requestId : UInt64)
    (sends : List Outgoing) : Prop :=
  ∃ expiresAt offererTicket accepterTicket, sends =
    { target := state.offerer
      message := resumeTicketMessage state.id t .offerer d expiresAt offererTicket, requestId } ::
    state.accepter.toList.map fun accepter =>
      { target := accepter
        message := resumeTicketMessage state.id t .accepter d expiresAt accepterTicket, requestId }

theorem TicketSends.neutral {state : PairingState} {t : TransferId} {d : Digest}
    {requestId : UInt64} {sends : List Outgoing} (h : TicketSends state t d requestId sends) :
    ∀ out ∈ sends, out.Neutral := by
  obtain ⟨expiresAt, offererTicket, accepterTicket, rfl⟩ := h
  intro out hout
  simp only [List.mem_cons, List.mem_map] at hout
  rcases hout with rfl | ⟨_, -, rfl⟩
  · exact ⟨rfl, rfl⟩
  · exact ⟨rfl, rfl⟩

theorem TicketSends.ticket {state : PairingState} {t : TransferId} {d : Digest} {requestId : UInt64}
    {sends : List Outgoing} (h : TicketSends state t d requestId sends) {a : Peer}
    (ha : state.accepter = some a) : ∃ out ∈ sends, out.target = a ∧ ticketFor out = some t := by
  obtain ⟨expiresAt, offererTicket, accepterTicket, rfl⟩ := h
  rw [ha]
  exact ⟨_, List.mem_cons_of_mem _ List.mem_cons_self, rfl, rfl⟩

theorem offerTickets_kept (t : TransferId) (digest : Digest) (requestId : UInt64) :
    Ends (offerTickets t digest requestId) c
      (fun sends c' => Kept c c' ∧ (c'.state.pathAuthorizations t).isSome ∧
        c'.state.digestOf t = some digest ∧ TicketSends c.state t digest requestId sends)
      fun _ c' => Kept c c' := by
  rw [offerTickets, ends_bind]
  refine (ensurePathAuthorization_kept t).mono (fun _ c₁ h₁ => ?_) fun _ _ h => h.1
  rw [ends_bind, ends_get, ends_bind]
  refine (ensureResumeState_kept t digest).mono (fun resume c₂ h₂ => ?_)
    fun _ _ h => IsTrans.trans _ _ _ h₁.1 h
  obtain ⟨hkept₂, hresume, hdigest⟩ := h₂
  have hkept : Kept c c₂ := IsTrans.trans _ _ _ h₁.1 hkept₂
  have hpath := hkept₂.paths t h₁.2
  have hdigest₂ : c₂.state.digestOf t = some digest := by
    rw [PairingState.digestOf, hresume, ← hdigest]
    rfl
  rw [ends_bind, accepterTickets, h₁.1.accepter]
  split
  · next a ha =>
      rw [ends_bind]
      refine (ensureAccepterTicket_kept hresume).mono (fun ticket c₃ h₃ => ?_)
        fun _ _ h => IsTrans.trans _ _ _ hkept h.1
      refine ⟨IsTrans.trans _ _ _ hkept h₃, h₃.paths t hpath, h₃.digests t digest hdigest₂,
        resume.expiresAtMillis, resume.offererTicket, ticket, ?_⟩
      rw [ha, h₁.1.offerer, h₁.1.names.1]
      rfl
  · next hnone =>
      refine ⟨hkept, hpath, hdigest₂, resume.expiresAtMillis, resume.offererTicket, [], ?_⟩
      rw [hnone, h₁.1.offerer, h₁.1.names.1]
      rfl

theorem validatePathAuthorization_same (t : TransferId) (token : CheckToken) (expiresAt : UInt64) :
    Ends (validatePathAuthorization t token expiresAt) c (fun _ c' => c' = c)
      fun _ c' => c' = c := by
  rw [validatePathAuthorization, ends_bind, ends_get]
  split
  · rfl
  · simp [ends_ite]

theorem routeTarget_ends (config : ServerConfig) (role : PeerRole) (message : Message)
    (requestId : UInt64) :
    Ends (routeTarget config role message requestId) c
      (fun target c' => match target with
        | none => role = .offerer ∧ c.state.accepter = none ∧ c' = { c with state := { c.state with
            pendingForAccepter := c.state.pendingForAccepter ++ [(message, requestId)] } }
        | some peer => c' = c ∧ (role = .offerer ∧ c.state.accepter = some peer ∨
            role = .accepter ∧ peer = c.state.offerer))
      fun _ c' => c' = c := by
  rw [routeTarget, ends_bind, ends_get, ends_ite]
  refine ⟨fun _ => rfl, fun _ => ?_⟩
  split
  · next a ha => exact ⟨rfl, .inl ⟨rfl, ha⟩⟩
  · exact ⟨rfl, .inr ⟨rfl, rfl⟩⟩
  · next hnone =>
      rw [ends_ite]
      exact ⟨fun _ => rfl, fun _ => ⟨rfl, hnone, rfl⟩⟩

/-- What goes ahead of an offer once it has its target. -/
def RouteSends (state : PairingState) (t : TransferId) (requestId : UInt64)
    (sends : List Outgoing) : Prop :=
  ∃ authorization, sends =
    { target := state.offerer, message := pathAuthorizationMessage t authorization, requestId } ::
    (state.accepter.toList.map fun accepter =>
      { target := accepter, message := pathAuthorizationMessage t authorization, requestId }) ++
    { target := state.offerer, message := relayOpen t state.relayId state.relayTicket
      requestId } ::
    state.accepter.toList.map fun accepter =>
      { target := accepter, message := relayOpen t state.relayId state.relayTicket, requestId }

theorem RouteSends.neutral {state : PairingState} {t : TransferId} {requestId : UInt64}
    {sends : List Outgoing} (h : RouteSends state t requestId sends) :
    ∀ out ∈ sends, out.Neutral := by
  obtain ⟨authorization, rfl⟩ := h
  intro out hout
  simp only [List.mem_append, List.mem_cons, List.mem_map] at hout
  rcases hout with (rfl | ⟨_, -, rfl⟩) | (rfl | ⟨_, -, rfl⟩)
  · exact ⟨rfl, rfl⟩
  · exact ⟨rfl, rfl⟩
  · exact ⟨rfl, rfl⟩
  · exact ⟨rfl, rfl⟩

theorem offerRoute_ends (t : TransferId) (requestId : UInt64) :
    Ends (offerRoute t requestId) c
      (fun sends c' => c' = c ∧ RouteSends c.state t requestId sends)
      fun _ c' => c' = c ∧ c.state.pathAuthorizations t = none := by
  rw [offerRoute, ends_bind, ends_get]
  dsimp only
  split
  · next hnone => exact ⟨rfl, hnone⟩
  · next authorization _ => exact ⟨rfl, authorization, rfl⟩

/-! ## The section of `join_pairing` -/

/-- The peer has become the accepter and taken what was pending. -/
def Locked.joinedBy (c : Locked) (peer : Peer) : Locked :=
  { c with state := { c.state with accepter := some peer, pendingForAccepter := [] } }

/-- The peer is the accepter from here on, and nothing is pending any more. -/
structure Joins (peer : Peer) (c c' : Locked) : Prop where
  vacant : c.state.accepter = none
  kept : Kept (c.joinedBy peer) c'

theorem Joins.offerer {peer : Peer} (h : Joins peer c c') :
    c'.state.offerer = c.state.offerer := h.kept.offerer

theorem Joins.accepter {peer : Peer} (h : Joins peer c c') : c'.state.accepter = some peer :=
  h.kept.accepter

theorem Joins.pending {peer : Peer} (h : Joins peer c c') : c'.state.pendingForAccepter = [] :=
  h.kept.pending

theorem Joins.trans {peer : Peer} {c'' : Locked} (h : Joins peer c c') (hkept : Kept c' c'') :
    Joins peer c c'' := ⟨h.vacant, IsTrans.trans _ _ _ h.kept hkept⟩

theorem Joins.lacks {peer : Peer} {e : ServerError} (h : Joins peer c c') (he : c'.Lacks e) :
    c.Lacks e := h.kept.lacks he

/-- The pairing can be joined: it has not expired, has no accepter yet, and this
attempt is within the limit. -/
def Locked.admits (c : Locked) (config : ServerConfig) : Bool :=
  decide (c.now < c.state.expiresAt) &&
    decide (c.state.joinAttempts + 1 ≤ config.maxJoinAttempts) && c.state.accepter.isNone

/-- The first transfer offered. -/
def firstOffer (pending : List (Message × UInt64)) : Option (TransferId × Digest) :=
  pending.findSome? fun entry => offered entry.1

/-- Only the transfer offered first is authorized, which can fail only for want of
randomness. -/
def FirstAuthorized (c : Locked) (pending : List (Message × UInt64))
    (pathAuth : Option (TransferId × Option PathAuthorization)) : Prop :=
  match firstOffer pending with
  | none => pathAuth = none
  | some (t, _) => ∃ authorization, pathAuth = some (t, authorization) ∧
      (c.Works → authorization.isSome)

/-- What is written once the pairing has been joined, for these of the messages that
were pending. -/
def Delivers (peer : Peer) (c : Locked) (pending : List (Message × UInt64))
    (sends : List Outgoing) : Prop :=
  ∃ ticket requestId tickets pathAuth,
    Tickets c.state.id c.state.pendingForAccepter tickets ∧
    FirstAuthorized c c.state.pendingForAccepter pathAuth ∧
    sends = [{ target := c.state.offerer
               message := .pairing (.pairingJoined c.state.id offererHint accepterHint ticket)
               requestId },
        { target := peer
          message := .pairing (.pairingJoined c.state.id offererHint accepterHint ticket)
          requestId }] ++
      deliverAll c.state peer requestId tickets pathAuth 0 pending

theorem firstAuthorization_kept (pending : List (Message × UInt64)) :
    Ends (firstAuthorization pending) c
      (fun pathAuth c' => Kept c c' ∧ FirstAuthorized c pending pathAuth) fun _ _ => False := by
  unfold firstAuthorization FirstAuthorized firstOffer
  cases pending.findSome? fun entry => offered entry.1 with
  | none => exact ⟨Std.Refl.refl c, rfl⟩
  | some o =>
      simp only []
      rw [ends_bind, ends_tryCatch, ends_map]
      exact (ensurePathAuthorization_kept o.1).mono
        (fun authorization _ h => ⟨h.1, some authorization, rfl, fun _ => rfl⟩)
        fun _ _ h => ⟨h.1, none, rfl, fun hworks => (h.2.2 hworks).elim⟩

theorem joinPairing_ends (config : ServerConfig) (peer : Peer) (requestId : UInt64)
    (hprepared : ∀ t, offeredIn c.state.pendingForAccepter t → (c.state.transfers t).isSome) :
    Ends (joinPairing config peer requestId) c
      (fun sends c' => (Joins peer c c' ∧ c.admits config) ∧
        Delivers peer c c.state.pendingForAccepter sends)
      fun e c' => Kept c c' ∨ (Joins peer c c' ∧ c.admits config) ∧ c.Lacks e := by
  rw [joinPairing, ends_bind, ends_get, ends_ite]
  refine ⟨fun _ => .inl (Std.Refl.refl c), fun hnow => ?_⟩
  rw [ends_bind, setState, ends_modify, ends_ite]
  refine ⟨fun _ => .inl (Kept.of_state rfl), fun hattempts => ?_⟩
  rw [ends_ite]
  refine ⟨fun _ => .inl (Kept.of_state rfl), fun hvacant => ?_⟩
  have hadmits : c.admits config := by
    simp only [Locked.admits, Bool.and_eq_true, decide_eq_true_eq]
    exact ⟨⟨by omega, by omega⟩, by simpa using hvacant⟩
  rw [ends_bind, setState, ends_modify, ends_bind]
  have hjoins : Joins peer c { c with state := { c.state with
      joinAttempts := c.state.joinAttempts + 1
      accepter := some peer
      pendingForAccepter := [] } } :=
    ⟨by simpa using hvacant, Kept.of_state rfl⟩
  refine (firstAuthorization_kept _).mono (fun pathAuth c₁ h₁ => ?_) fun _ _ h => h.elim
  have hjoins₁ := hjoins.trans h₁.1
  rw [ends_bind]
  have hnothing : Tickets c.state.id [] fun _ => none := by
    refine ⟨fun _ _ hm => (by cases hm), ?_⟩
    rintro t ⟨entry, hentry, -⟩
    cases hentry
  refine (pendingTickets_kept h₁.1.names.1 (fun t ht => h₁.1.transfers t (hprepared t ht))
    hnothing).mono (fun tickets c₂ h₂ => ?_)
    fun e c₂ h => .inr ⟨⟨hjoins₁.trans h.1, hadmits⟩, hjoins₁.lacks h.2⟩
  have hjoins₂ := hjoins₁.trans h₂.1
  rw [ends_bind]
  refine randomTicket_kept.mono (fun ticket c₃ h₃ => ?_)
    fun e c₃ h => .inr ⟨⟨hjoins₂.trans h.1, hadmits⟩, hjoins₂.lacks h.2⟩
  exact ⟨⟨hjoins₂.trans h₃, hadmits⟩, ticket, requestId, tickets, pathAuth, h₂.2, h₁.2, rfl⟩

/-! ## The deliveries -/

/-- The entries for one connection. -/
def toPeer (peer : Peer) (outs : List Outgoing) : List Outgoing := outs.filter (·.target = peer)

theorem toPeer_append (peer : Peer) (outs outs' : List Outgoing) :
    toPeer peer (outs ++ outs') = toPeer peer outs ++ toPeer peer outs' := List.filter_append ..

theorem mem_toPeer {peer : Peer} {outs : List Outgoing} {out : Outgoing} :
    out ∈ toPeer peer outs ↔ out ∈ outs ∧ out.target = peer := by
  simp [toPeer]

section

variable (state : PairingState) (accepter : Peer) (requestId : UInt64)
  (pathAuth : Option (TransferId × Option PathAuthorization))
  {tickets : TransferId → Option Message}
  (htickets : ∀ t m, tickets t = some m → ticketOf m = some t)

include htickets

/-- A message is delivered last, and an offer after its ticket. -/
theorem deliver_eq (message : Message) (number : Nat) :
    ∃ before, deliver state accepter requestId tickets pathAuth message number =
        before ++ [{ target := accepter, message, requestId, number := some number }] ∧
      (∀ out ∈ before, out.Neutral ∧ writable out.message) ∧
      (offered message = none → before = []) ∧
      ∀ t d, offered message = some (t, d) → (tickets t).isSome →
        ∃ out ∈ before, out.target = accepter ∧ ticketFor out = some t := by
  refine ⟨_, rfl, ?_, ?_, ?_⟩
  · intro out hout
    split at hout
    · cases hout
    · next t d hoffer =>
        simp only [List.mem_append] at hout
        rcases hout with (hout | hout) | hout
        · split at hout
          · next ticket hticket =>
              obtain rfl := List.mem_singleton.1 hout
              have hof := htickets t ticket hticket
              refine ⟨⟨?_, rfl⟩, writable_of_ticketOf hof⟩
              cases hoffered : offered ticket with
              | none => rfl
              | some o =>
                  unfold offered at hoffered
                  split at hoffered
                  · cases hof
                  · cases hoffered
          · cases hout
        · split at hout
          · split at hout
            · simp only [List.mem_cons, List.not_mem_nil, or_false] at hout
              rcases hout with rfl | rfl
              · exact ⟨⟨rfl, rfl⟩, rfl⟩
              · exact ⟨⟨rfl, rfl⟩, rfl⟩
            · cases hout
          · cases hout
        · simp only [List.mem_cons, List.not_mem_nil, or_false] at hout
          rcases hout with rfl | rfl
          · exact ⟨⟨rfl, rfl⟩, rfl⟩
          · exact ⟨⟨rfl, rfl⟩, rfl⟩
  · intro hnone
    rw [hnone]
  · intro t d hoffer hsome
    obtain ⟨ticket, hticket⟩ := Option.isSome_iff_exists.1 hsome
    refine ⟨{ target := accepter, message := ticket, requestId }, ?_, rfl,
      htickets t ticket hticket⟩
    rw [hoffer]
    dsimp only
    rw [hticket]
    simp

/-- What comes before the first message that cannot be written is what is delivered
for the messages before it. -/
theorem deliverAll_takeWhile (number : Nat) (pending : List (Message × UInt64)) :
    (deliverAll state accepter requestId tickets pathAuth number pending).takeWhile
        (fun out => writable out.message) =
      deliverAll state accepter requestId tickets pathAuth number
        (pending.takeWhile fun entry => writable entry.1) := by
  induction pending generalizing number with
  | nil => rfl
  | cons entry rest ih =>
      obtain ⟨before, hdeliver, hbefore, hplain, -⟩ :=
        deliver_eq state accepter requestId pathAuth htickets entry.1 number
      cases hwritable : writable entry.1 with
      | true =>
          have hall : ∀ out ∈ deliver state accepter requestId tickets pathAuth entry.1 number,
              writable out.message = true := by
            rw [hdeliver]
            intro out hout
            rcases List.mem_append.1 hout with hout | hout
            · exact (hbefore out hout).2
            · rw [List.mem_singleton.1 hout]
              exact hwritable
          rw [List.takeWhile_cons_of_pos (by exact hwritable), deliverAll, deliverAll, ← ih,
            List.takeWhile_append_of_pos hall]
      | false =>
          have hfirst : deliver state accepter requestId tickets pathAuth entry.1 number =
              [{ target := accepter, message := entry.1, requestId, number := some number }] := by
            rw [hdeliver, hplain (offered_of_refused hwritable), List.nil_append]
          rw [List.takeWhile_cons_of_neg (by simp [hwritable])]
          simp [deliverAll, hfirst, hwritable]

omit htickets in
theorem Delivers.takeWhile {peer : Peer} {pending : List (Message × UInt64)}
    {sends : List Outgoing} (h : Delivers peer c pending sends) :
    Delivers peer c (pending.takeWhile fun entry => writable entry.1)
      (sends.takeWhile fun out => writable out.message) := by
  obtain ⟨ticket, requestId, tickets, pathAuth, htickets, hauth, rfl⟩ := h
  refine ⟨ticket, requestId, tickets, pathAuth, htickets, hauth, ?_⟩
  rw [← deliverAll_takeWhile _ _ _ _ htickets.ticketOf]
  rfl

/-- The messages are numbered in turn. -/
theorem numbers_deliverAll (number : Nat) (pending : List (Message × UInt64)) :
    numbers (deliverAll state accepter requestId tickets pathAuth number pending) =
      List.range' number pending.length := by
  induction pending generalizing number with
  | nil => rfl
  | cons entry rest ih =>
      obtain ⟨before, hdeliver, hneutral, -⟩ :=
        deliver_eq state accepter requestId pathAuth htickets entry.1 number
      have hnumbers : numbers before = [] :=
        numbers_of_neutral fun out hout => (hneutral out hout).1
      unfold numbers at ih hnumbers ⊢
      rw [deliverAll, hdeliver, List.filterMap_append, List.filterMap_append, hnumbers, ih]
      rfl

theorem mem_deliverAll {number : Nat} {pending : List (Message × UInt64)} {out : Outgoing} {i : Nat}
    (hout : out ∈ deliverAll state accepter requestId tickets pathAuth number pending)
    (hi : out.number = some i) :
    out.target = accepter ∧ ∃ j, i = number + j ∧ (pending.map (·.1))[j]? = some out.message := by
  induction pending generalizing number with
  | nil => cases hout
  | cons entry rest ih =>
      obtain ⟨before, hdeliver, hneutral, -⟩ :=
        deliver_eq state accepter requestId pathAuth htickets entry.1 number
      rw [deliverAll, hdeliver] at hout
      simp only [List.mem_append, List.mem_singleton] at hout
      rcases hout with (hout | rfl) | hout
      · rw [(hneutral out hout).1.number] at hi
        cases hi
      · cases hi
        exact ⟨rfl, 0, rfl, rfl⟩
      · obtain ⟨htarget, j, rfl, hj⟩ := ih hout
        exact ⟨htarget, j + 1, by omega, hj⟩

/-- To each peer the offers go after their tickets. -/
theorem guarded_deliverAll {pending : List (Message × UInt64)}
    (hall : ∀ t, offeredIn pending t → (tickets t).isSome) (peer : Peer) (seen : List Outgoing)
    (number : Nat) :
    Guarded ticketFor offers seen
      (toPeer peer (deliverAll state accepter requestId tickets pathAuth number pending)) := by
  induction pending generalizing number seen with
  | nil => trivial
  | cons entry rest ih =>
      obtain ⟨before, hdeliver, hneutral, -, hticket⟩ :=
        deliver_eq state accepter requestId pathAuth htickets entry.1 number
      rw [deliverAll, hdeliver, toPeer_append, toPeer_append]
      refine guarded_append.2 ⟨guarded_append.2 ⟨?_, ?_⟩, ih ?_ _ _⟩
      · exact guarded_of_none fun out hout => (hneutral out (mem_toPeer.1 hout).1).1.offers
      · by_cases hpeer : accepter = peer
        · have hlast : toPeer peer [{ target := accepter, message := entry.1, requestId
                                      number := some number }] =
              [{ target := accepter, message := entry.1, requestId, number := some number }] := by
            simp [toPeer, hpeer]
          rw [hlast]
          refine ⟨fun t ht => ?_, trivial⟩
          obtain ⟨⟨t', d⟩, hoffer, rfl⟩ := Option.map_eq_some_iff.1 ht
          obtain ⟨out, hout, htarget, hfor⟩ := hticket t' d hoffer
            (hall t' ⟨entry, List.mem_cons_self, d, hoffer⟩)
          exact ⟨out, List.mem_append_right _ (mem_toPeer.2 ⟨hout, htarget.trans hpeer⟩), hfor⟩
        · have hlast : toPeer peer [{ target := accepter, message := entry.1, requestId
                                      number := some number }] = [] := by
            simp [toPeer, hpeer]
          rw [hlast]
          trivial
      · rintro t ⟨entry', hentry, d, hoffer⟩
        exact hall t ⟨entry', List.mem_cons_of_mem _ hentry, d, hoffer⟩

end

end DartUdp.Server
