import Mathlib.Logic.Function.Basic
import DartUdp.Lib.Prog
import DartUdp.Protocol.Message

/-!
# The rendezvous of one pairing

The server has one task a connection. A task holds the lock of the pairing for a
section at a time and writes to the peers with the lock released, so between two
sections, and between two writes, any other task may go on. This file has the
sections of `join_pairing` and `route_message`, what each leaves to be written,
and the steps the tasks of the connections can take, in any order.

The data streams that `spawn_relay` copies are left out; the error a relay sends
is a step. The messages that make a connection a peer of another pairing, or a
peer again, are left out as well.
-/

namespace DartUdp.Server

open DartUdp.Lib DartUdp.Protocol
open DartUdp.Transfer (TransferId Digest)
open DartUdp.Session (RelayId)

def errorPairingUnavailable : UInt32 := 1

def errorPairingExpired : UInt32 := 2

def errorPairingAlreadyJoined : UInt32 := 3

def errorServerLimit : UInt32 := 4

def errorRelayFailed : UInt32 := 6

def errorPathUnauthorized : UInt32 := 7

structure ServerConfig where
  maxJoinAttempts : Nat := 8
  maxPendingMessages : Nat := 1024

/-- The role of a connection in the pairing. -/
inductive PeerRole where
  | offerer
  | accepter
deriving DecidableEq, Repr

/-- A connection and its writer. -/
abbrev Peer := Nat

/-- An `io::Error` with its text and the code that `server_error_code` finds in it. -/
structure ServerError where
  code : Option UInt32
  text : Text
deriving DecidableEq

def codeUnknown : ServerError :=
  ⟨some errorPairingUnavailable, .ofAscii "1: pairing code is unknown"⟩

def codeExpired : ServerError :=
  ⟨some errorPairingExpired, .ofAscii "2: pairing code has expired"⟩

def attemptsLimited : ServerError :=
  ⟨some errorPairingUnavailable, .ofAscii "1: pairing attempts are limited"⟩

def alreadyJoined : ServerError :=
  ⟨some errorPairingAlreadyJoined, .ofAscii "3: pairing already has an accepter"⟩

def pairingRequired : ServerError :=
  ⟨some errorPairingUnavailable, .ofAscii "pairing is required"⟩

def resumeStateMissing : ServerError :=
  ⟨none, .ofAscii "resume state is missing for offered transfer"⟩

def randomnessUnavailable : ServerError := ⟨none, .ofAscii "randomness unavailable"⟩

def manifestChanged : ServerError := ⟨none, .ofAscii "transfer manifest changed"⟩

def roleForbidden : ServerError :=
  ⟨some errorPathUnauthorized, .ofAscii "7: message is not allowed for this pairing role"⟩

def authorizationUnknown : ServerError :=
  ⟨some errorPathUnauthorized, .ofAscii "7: path check authorization is unknown"⟩

def authorizationMismatch : ServerError :=
  ⟨some errorPathUnauthorized,
    .ofAscii "7: path check authorization does not match the transfer"⟩

def authorizationExpired : ServerError :=
  ⟨some errorPathUnauthorized, .ofAscii "7: path check authorization has expired"⟩

def authorizationMissing : ServerError :=
  ⟨none, .ofAscii "path authorization was not created"⟩

def sessionExpired : ServerError :=
  ⟨some errorPairingExpired, .ofAscii "2: pairing session has expired"⟩

def queueFull : ServerError :=
  ⟨some errorServerLimit, .ofAscii "4: pairing control queue is full"⟩

/-! ## The pairing -/

structure PathAuthorization where
  checkToken : CheckToken
  expiresAtMillis : UInt64

structure ResumeState where
  manifestDigest : Digest
  expiresAtMillis : UInt64
  offererTicket : SessionTicket
  accepterTicket : Option SessionTicket

structure PairingState where
  id : PairingId
  expiresAt : Nat
  offerer : Peer
  accepter : Option Peer := none
  joinAttempts : Nat := 0
  pendingForAccepter : List (Message × UInt64) := []
  relayId : RelayId
  relayTicket : SessionTicket
  pathAuthorizations : TransferId → Option PathAuthorization := fun _ => none
  transfers : TransferId → Option ResumeState := fun _ => none

/-- What a section works on: the locked pairing, the clocks, in nanoseconds and in
milliseconds of the wall clock, and the random source, whose `drawn`-th draw
gives 32 bytes or fails. -/
structure Locked where
  state : PairingState
  now : Nat
  unixMillis : UInt64
  random : Nat → Option (Vector UInt8 32)
  drawn : Nat := 0

/-- What runs under the lock; an error keeps the writes made before it. -/
abbrev Section := EStateM ServerError Locked

/-- `unix_millis_after`, from the given time of the wall clock. -/
def unixMillisAfter (now : UInt64) (millis : Nat) : UInt64 :=
  UInt64.ofNat (min (now.toNat + millis) (2 ^ 64 - 1))

def drawRandom : Section (Vector UInt8 32) := do
  let s ← get
  set { s with drawn := s.drawn + 1 }
  match s.random s.drawn with
  | some bytes => return bytes
  | none => throw randomnessUnavailable

/-- `random_ticket`. -/
def randomTicket : Section SessionTicket := return (← drawRandom).toList

def setState (f : PairingState → PairingState) : Section Unit :=
  modify fun s => { s with state := f s.state }

/-- `ensure_path_authorization`. -/
def ensurePathAuthorization (transferId : TransferId) : Section PathAuthorization := do
  let s ← get
  match (s.state.pathAuthorizations transferId).filter (s.unixMillis < ·.expiresAtMillis) with
  | some authorization => return authorization
  | none =>
      let authorization : PathAuthorization :=
        ⟨← drawRandom, unixMillisAfter s.unixMillis 30000⟩
      setState fun state => { state with
        pathAuthorizations := Function.update state.pathAuthorizations transferId
          (some authorization) }
      return authorization

/-- `ensure_resume_state`. -/
def ensureResumeState (transferId : TransferId) (manifestDigest : Digest) :
    Section ResumeState := do
  let s ← get
  match s.state.transfers transferId with
  | some existing =>
      if existing.manifestDigest ≠ manifestDigest then throw manifestChanged
      return existing
  | none =>
      let resume : ResumeState := {
        manifestDigest := manifestDigest
        expiresAtMillis := unixMillisAfter s.unixMillis ((s.state.expiresAt - s.now) / 1000000)
        offererTicket := ← randomTicket
        accepterTicket := none }
      setState fun state => { state with
        transfers := Function.update state.transfers transferId (some resume) }
      return resume

/-- `ensure_accepter_ticket` of the transfer's resume state. -/
def ensureAccepterTicket (transferId : TransferId) (resume : ResumeState) :
    Section SessionTicket := do
  match resume.accepterTicket with
  | some ticket => return ticket
  | none =>
      let ticket ← randomTicket
      setState fun state => { state with
        transfers := Function.update state.transfers transferId
          (some { resume with accepterTicket := some ticket }) }
      return ticket

/-! ## Messages -/

/-- The transfer that a message offers. -/
def offered : Message → Option (TransferId × Digest)
  | .pairing (.offerReady transferId manifestDigest ..) => some (transferId, manifestDigest)
  | _ => none

/-- A message that waits to be written to the connection of a peer. One the
offerer has sent for its accepter has its number among these. -/
structure Outgoing where
  target : Peer
  message : Message
  requestId : UInt64
  number : Option Nat := none
deriving DecidableEq

/-- `resume_ticket_message`. -/
def resumeTicketMessage (pairingId : PairingId) (transferId : TransferId) (role : TransferRole)
    (manifestDigest : Digest) (expiresAt : UInt64) (ticket : SessionTicket) : Message :=
  .pairing (.resumeTicket pairingId transferId role manifestDigest expiresAt ticket)

/-- `path_authorization_message`. -/
def pathAuthorizationMessage (transferId : TransferId) (authorization : PathAuthorization) :
    Message :=
  .pairing (.pathCheckAuthorization transferId authorization.checkToken
    authorization.expiresAtMillis)

/-- `relay_open`. -/
def relayOpen (transferId : TransferId) (relayId : RelayId) (relayTicket : SessionTicket) :
    Message :=
  .pairing (.relayOpen transferId relayId relayTicket)

/-- The message of `send_error`, and of `send_relay_error` with its scope. -/
def errorMessage (scope : Session.TransferErrorScope) (code : UInt32) (text : Text) : Message :=
  .transfer (.transferError scope code false text)

def unusableAddress : Text := .ofAscii "invalid value for path check observed address"

/-- The text of the error of `write_message`, which encodes what it is given. The checks
of the encoder are those the decoder has made, and what the server writes itself meets
them; but the decoder takes a response with an address that cannot be used. -/
def writeError : Message → Option Text
  | .path check =>
      match check.validate with
      | .error _ => some unusableAddress
      | .ok () => none
  | _ => none

/-- The message can be written. -/
def writable (message : Message) : Bool := (writeError message).isNone

def offererHint : Text := .ofAscii "offerer"

def accepterHint : Text := .ofAscii "accepter"

/-- `validate_message_role`. -/
def validateMessageRole (role : PeerRole) (message : Message) : Except ServerError Unit :=
  let forbidden : Bool := match message with
    | .pairing (.offerReady ..) | .pairing (.relayOpen ..)
    | .pairing (.pathCheckAuthorization ..) | .pairing (.resumeTicket ..)
    | .pairing (.resumeTransfer ..) | .pairing (.resumeAccepted ..)
    | .pairing (.peerReconnected ..) | .transfer (.fileBegin ..) => role == .accepter
    | _ => false
  if forbidden then .error roleForbidden else .ok ()

/-! ## The sections of `join_pairing` -/

/-- The tickets for the pending offers, the last one of each transfer. -/
def pendingTickets : List (Message × UInt64) → (TransferId → Option Message) →
    Section (TransferId → Option Message)
  | [], tickets => return tickets
  | (message, _) :: rest, tickets =>
      match offered message with
      | none => pendingTickets rest tickets
      | some (transferId, manifestDigest) => do
          let s ← get
          match s.state.transfers transferId with
          | none => throw resumeStateMissing
          | some resume =>
              let ticket ← ensureAccepterTicket transferId resume
              pendingTickets rest (Function.update tickets transferId
                (some (resumeTicketMessage s.state.id transferId .accepter manifestDigest
                  resume.expiresAtMillis ticket)))

/-- The authorization of the first pending offer, `none` if it cannot be made. -/
def firstAuthorization (pending : List (Message × UInt64)) :
    Section (Option (TransferId × Option PathAuthorization)) :=
  match pending.findSome? fun entry => offered entry.1 with
  | none => return none
  | some (transferId, _) => do
      let authorization ← tryCatch (some <$> ensurePathAuthorization transferId) fun _ => pure none
      return some (transferId, authorization)

/-- What `join_pairing` writes for one of the pending messages. -/
def deliver (state : PairingState) (accepter : Peer) (requestId : UInt64)
    (tickets : TransferId → Option Message)
    (pathAuth : Option (TransferId × Option PathAuthorization)) (message : Message)
    (number : Nat) : List Outgoing :=
  (match offered message with
    | none => []
    | some (transferId, _) =>
        (match tickets transferId with
          | some ticket => [{ target := accepter, message := ticket, requestId }]
          | none => []) ++
        (match pathAuth with
          | some (authTransferId, some authorization) =>
              if authTransferId = transferId then
                let message := pathAuthorizationMessage transferId authorization
                [{ target := state.offerer, message, requestId },
                  { target := accepter, message, requestId }]
              else []
          | _ => []) ++
        [{ target := state.offerer
           message := relayOpen transferId state.relayId state.relayTicket, requestId },
          { target := accepter
            message := relayOpen transferId state.relayId state.relayTicket, requestId }]) ++
  [{ target := accepter, message, requestId, number := some number }]

/-- What `join_pairing` writes for the pending messages, the first of which has the
given number. -/
def deliverAll (state : PairingState) (accepter : Peer) (requestId : UInt64)
    (tickets : TransferId → Option Message)
    (pathAuth : Option (TransferId × Option PathAuthorization)) :
    Nat → List (Message × UInt64) → List Outgoing
  | _, [] => []
  | number, (message, _) :: rest =>
      deliver state accepter requestId tickets pathAuth message number ++
        deliverAll state accepter requestId tickets pathAuth (number + 1) rest

/-- `join_pairing`, from the lock of the pairing on. -/
def joinPairing (config : ServerConfig) (accepter : Peer) (requestId : UInt64) :
    Section (List Outgoing) := do
  let s ← get
  if s.state.expiresAt ≤ s.now then throw codeExpired
  setState fun state => { state with joinAttempts := state.joinAttempts + 1 }
  if s.state.joinAttempts + 1 > config.maxJoinAttempts then throw attemptsLimited
  if s.state.accepter.isSome then throw alreadyJoined
  let pending := s.state.pendingForAccepter
  setState fun state => { state with accepter := some accepter, pendingForAccepter := [] }
  let pathAuth ← firstAuthorization pending
  let tickets ← pendingTickets pending fun _ => none
  let joined : Message :=
    .pairing (.pairingJoined s.state.id offererHint accepterHint (← randomTicket))
  return { target := s.state.offerer, message := joined, requestId } ::
    { target := accepter, message := joined, requestId } ::
    deliverAll s.state accepter requestId tickets pathAuth 0 pending

/-! ## The sections of `route_message` -/

/-- The accepter's ticket, if there is an accepter. -/
def accepterTickets (state : PairingState) (transferId : TransferId) (manifestDigest : Digest)
    (resume : ResumeState) (requestId : UInt64) : Section (List Outgoing) :=
  match state.accepter with
  | some accepter => do
      let ticket ← ensureAccepterTicket transferId resume
      return [{ target := accepter
                message := resumeTicketMessage state.id transferId .accepter manifestDigest
                  resume.expiresAtMillis ticket, requestId }]
  | none => return []

/-- The first section, for an offer: the tickets to be sent ahead of it. -/
def offerTickets (transferId : TransferId) (manifestDigest : Digest) (requestId : UInt64) :
    Section (List Outgoing) := do
  let _ ← ensurePathAuthorization transferId
  let state := (← get).state
  let resume ← ensureResumeState transferId manifestDigest
  let accepterTicket ← accepterTickets state transferId manifestDigest resume requestId
  return { target := state.offerer
           message := resumeTicketMessage state.id transferId .offerer manifestDigest
             resume.expiresAtMillis resume.offererTicket, requestId } :: accepterTicket

/-- `validate_path_authorization`. -/
def validatePathAuthorization (transferId : TransferId) (checkToken : CheckToken)
    (expiresAt : UInt64) : Section Unit := do
  let s ← get
  match s.state.pathAuthorizations transferId with
  | none => throw authorizationUnknown
  | some expected =>
      if expected.checkToken ≠ checkToken ∨ expected.expiresAtMillis ≠ expiresAt then
        throw authorizationMismatch
      if s.unixMillis ≥ expiresAt then throw authorizationExpired

/-- The section that finds the peer to send to, or keeps the message for it. -/
def routeTarget (config : ServerConfig) (role : PeerRole) (message : Message)
    (requestId : UInt64) : Section (Option Peer) := do
  let s ← get
  if s.state.expiresAt ≤ s.now then throw sessionExpired
  match role, s.state.accepter with
  | .offerer, some accepter => return some accepter
  | .accepter, _ => return some s.state.offerer
  | .offerer, none =>
      if s.state.pendingForAccepter.length ≥ config.maxPendingMessages then throw queueFull
      setState fun state => { state with
        pendingForAccepter := state.pendingForAccepter ++ [(message, requestId)] }
      return none

/-- The section that, for an offer, gathers what both peers get ahead of it. -/
def offerRoute (transferId : TransferId) (requestId : UInt64) : Section (List Outgoing) := do
  let state := (← get).state
  match state.pathAuthorizations transferId with
  | none => throw authorizationMissing
  | some authorization =>
      let toBoth (message : Message) : List Outgoing :=
        { target := state.offerer, message, requestId } ::
          state.accepter.toList.map fun accepter => { target := accepter, message, requestId }
      return toBoth (pathAuthorizationMessage transferId authorization) ++
        toBoth (relayOpen transferId state.relayId state.relayTicket)

/-! ## The tasks -/

/-- Where a task goes on once it has written what it has to write. -/
inductive Stage where
  /-- It reads the next message of its connection. -/
  | listening
  /-- It locks the pairing to join it. -/
  | joining (requestId : UInt64)
  /-- It has joined: its connection is the accepter's from now on. -/
  | joined
  /-- It locks the pairing to check the authorization it is to route. -/
  | authorizing (message : Message) (requestId : UInt64)
  /-- It locks the pairing to find the peer the message is for. -/
  | targeting (message : Message) (requestId : UInt64)
  /-- It locks the pairing to gather what goes ahead of the offer. -/
  | offering (message : Message) (transferId : TransferId) (requestId : UInt64) (target : Peer)
      (number : Option Nat)
  /-- `serve_connection` has returned. -/
  | stopped
deriving DecidableEq

/-- The task of a connection. An error in the routing of a message that is not a
pairing message is reported to the connection; any other ends the task. -/
structure Task where
  role : Option PeerRole := none
  sends : List Outgoing := []
  stage : Stage := .listening
  reports : Bool := false
deriving DecidableEq

/-- The server, as far as the pairing is concerned. `routed` is the history of the
messages of the offerer that were kept or forwarded for its accepter, `read` that
of all it sent, and `broken` tells that a write or the random source has failed. -/
structure Rendezvous where
  config : ServerConfig
  locked : Locked
  listed : Bool := true
  tasks : Peer → Task
  queues : Peer → List Outgoing := fun _ => []
  read : List Message := []
  routed : List Message := []
  broken : Bool := false

namespace Rendezvous

def setTask (s : Rendezvous) (peer : Peer) (task : Task) : Rendezvous :=
  { s with tasks := Function.update s.tasks peer task }

/-- A section is run; the state it leaves is that of the pairing from then on. -/
def enter {α : Type} (s : Rendezvous) (m : Section α) : Rendezvous :=
  { s with
    locked := after m s.locked
    broken := s.broken || failure m s.locked == some randomnessUnavailable }

/-- `send_error` to the connection of the task, which then listens again. -/
def report (s : Rendezvous) (peer : Peer) (code : UInt32) (text : Text) : Rendezvous :=
  s.setTask peer { s.tasks peer with
    stage := .listening
    sends := [{ target := peer, message := errorMessage .session code text, requestId := 0 }] }

/-- What `serve_connection` does about an error of `route_message`. -/
def routeFailed (s : Rendezvous) (peer : Peer) (code : Option UInt32) (text : Text) : Rendezvous :=
  if (s.tasks peer).reports then s.report peer (code.getD errorPairingExpired) text
  else s.setTask peer { s.tasks peer with sends := [], stage := .stopped }

/-- The part of `route_message` up to the end of its first section. -/
def startRoute (s : Rendezvous) (peer : Peer) (role : PeerRole) (message : Message)
    (requestId : UInt64) : Rendezvous :=
  let task := { s.tasks peer with
    reports := match message with
      | .pairing _ => false
      | _ => true }
  let s := s.setTask peer task
  match validateMessageRole role message with
  | .error e => s.routeFailed peer e.code e.text
  | .ok _ =>
      match message with
      | .pairing (.offerReady transferId manifestDigest _ _ _) =>
          let m := offerTickets transferId manifestDigest requestId
          match m s.locked with
          | .error e _ => (s.enter m).routeFailed peer e.code e.text
          | .ok sends _ => (s.enter m).setTask peer { task with
              sends := sends, stage := .targeting message requestId }
      | .pairing (.pathCheckAuthorization ..) =>
          s.setTask peer { task with stage := .authorizing message requestId }
      | _ => s.setTask peer { task with stage := .targeting message requestId }

/-- The task reads a message of its connection. -/
def receive (s : Rendezvous) (peer : Peer) (message : Message) (requestId : UInt64) : Rendezvous :=
  let task := s.tasks peer
  if task.sends ≠ [] ∨ task.stage ≠ .listening then s
  else match task.role, message with
    | some role, _ =>
        startRoute { s with read := if role = .offerer then s.read ++ [message] else s.read }
          peer role message requestId
    | none, .pairing (.joinPairing ..) =>
        if s.listed then s.setTask peer { task with stage := .joining requestId }
        else s.report peer (codeUnknown.code.getD errorPairingUnavailable) codeUnknown.text
    | none, .pairing (.createPairing ..) => s
    | none, .pairing (.resumeTransfer ..) => s
    | none, _ => s.report peer errorPairingUnavailable pairingRequired.text

/-- The writes that end `route_message`, once the target is known. -/
def lastSend (role : PeerRole) (message : Message) (requestId : UInt64) (target : Peer)
    (number : Option Nat) : Outgoing :=
  match message, role with
  | .transfer (.fileBegin ..), .accepter =>
      { target
        message := errorMessage .session errorRelayFailed
          (.ofAscii "only the offerer may open a data stream")
        requestId := 0 }
  | _, _ => { target, message, requestId, number }

/-- The section `routeTarget` and what follows it without the lock. -/
def target (s : Rendezvous) (peer : Peer) (role : PeerRole) (message : Message)
    (requestId : UInt64) : Rendezvous :=
  let m := routeTarget s.config role message requestId
  let task := s.tasks peer
  match m s.locked with
  | .error e _ => (s.enter m).routeFailed peer e.code e.text
  | .ok target _ =>
      let number := if role = PeerRole.offerer then some s.routed.length else none
      let s := { s.enter m with
        routed := if role = PeerRole.offerer then s.routed ++ [message] else s.routed }
      match target with
      | none => s.setTask peer { task with stage := .listening }
      | some target =>
          match offered message with
          | some (transferId, _) =>
              s.setTask peer { task with
                stage := .offering message transferId requestId target number }
          | none =>
              s.setTask peer { task with
                sends := [lastSend role message requestId target number], stage := .listening }

/-- The task has nothing to write and takes the lock for its next section. -/
def lockNext (s : Rendezvous) (peer : Peer) : Rendezvous :=
  let task := s.tasks peer
  match task.stage, task.role with
  | .joining requestId, _ =>
      let m := joinPairing s.config peer requestId
      match m s.locked with
      | .error e _ => (s.enter m).report peer (e.code.getD errorPairingUnavailable) e.text
      | .ok sends _ => (s.enter m).setTask peer { task with sends, stage := .joined }
  | .joined, _ => s.setTask peer { task with role := some .accepter, stage := .listening }
  | .authorizing message requestId, _ =>
      match message with
      | .pairing (.pathCheckAuthorization transferId checkToken expiresAt) =>
          let m := validatePathAuthorization transferId checkToken expiresAt
          match m s.locked with
          | .error e _ => (s.enter m).routeFailed peer e.code e.text
          | .ok _ _ => (s.enter m).setTask peer { task with stage := .targeting message requestId }
      | _ => s
  | .targeting message requestId, some role => s.target peer role message requestId
  | .offering message transferId requestId target number, some role =>
      let m := offerRoute transferId requestId
      match m s.locked with
      | .error e _ => (s.enter m).routeFailed peer e.code e.text
      | .ok sends _ => (s.enter m).setTask peer { task with
          sends := sends ++ [lastSend role message requestId target number], stage := .listening }
  | _, _ => s

/-- The next write of the task fails: what it had yet to write is dropped. -/
def writeFails (s : Rendezvous) (peer : Peer) (text : Text) : Rendezvous :=
  match (s.tasks peer).sends with
  | [] => s
  | _ :: _ => { s with broken := true }.routeFailed peer none text

/-- The task goes on: it writes the next message, or takes the lock. A message that
cannot be encoded again is not written. -/
def goOn (s : Rendezvous) (peer : Peer) : Rendezvous :=
  match (s.tasks peer).sends with
  | [] => s.lockNext peer
  | out :: rest =>
      match writeError out.message with
      | some text => s.writeFails peer text
      | none =>
          { s.setTask peer { s.tasks peer with sends := rest } with
            queues := Function.update s.queues out.target (s.queues out.target ++ [out]) }

/-- `send_relay_error`, to one of the peers. -/
def relayError (s : Rendezvous) (role : PeerRole) (code : UInt32) (text : Text) : Rendezvous :=
  let peer := match role with
    | .offerer => some s.locked.state.offerer
    | .accepter => s.locked.state.accepter
  match peer with
  | none => s
  | some peer =>
      { s with
        queues := Function.update s.queues peer
          (s.queues peer ++
            [{ target := peer, message := errorMessage .path code text, requestId := 0 }]) }

end Rendezvous

/-- A step of the server. -/
inductive Action where
  | tick (elapsed : Nat) (unixMillis : UInt64)
  /-- `purge_expired` looks at the pairing. -/
  | purge
  | receive (peer : Peer) (message : Message) (requestId : UInt64)
  | goOn (peer : Peer)
  | writeFails (peer : Peer) (text : Text)
  | relayError (role : PeerRole) (code : UInt32) (text : Text)

namespace Rendezvous

def step (s : Rendezvous) : Action → Rendezvous
  | .tick elapsed unixMillis =>
      { s with locked := { s.locked with now := s.locked.now + elapsed, unixMillis } }
  | .purge => { s with listed := s.listed && !(s.locked.state.expiresAt ≤ s.locked.now) }
  | .receive peer message requestId => s.receive peer message requestId
  | .goOn peer => s.goOn peer
  | .writeFails peer text => s.writeFails peer text
  | .relayError role code text => s.relayError role code text

/-- The server after a list of steps. -/
def run (s : Rendezvous) (actions : List Action) : Rendezvous := actions.foldl step s

/-- The server as `create_pairing` leaves it: the pairing has its offerer and
nothing else, and no other connection has a role. -/
def start (config : ServerConfig) (id : PairingId) (relayId : RelayId)
    (relayTicket : SessionTicket) (offerer : Peer) (now lifetime : Nat) (unixMillis : UInt64)
    (random : Nat → Option (Vector UInt8 32)) : Rendezvous where
  config := config
  locked := {
    state := { id, expiresAt := now + lifetime, offerer, relayId, relayTicket }
    now, unixMillis, random }
  tasks := Function.update (fun _ => {}) offerer { role := some .offerer }

end Rendezvous

end DartUdp.Server
