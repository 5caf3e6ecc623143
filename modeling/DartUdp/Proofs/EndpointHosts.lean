import DartUdp.Proofs.EndpointAnswers

/-!
# Every connection of an endpoint is a run of the core

Many connections share one loop, one socket and one channel of commands. What
each of them goes through is a run of its own: it begins as the core makes it,
and then its core performs the datagrams that came from its path, the commands
that named it, and the passing of time. Whatever is known of every run of the
core holds of each connection an endpoint has.

The module is for `hosts_runs`. `Lives.step` appends an operation to the run of a
connection, and `Turned.hosts` goes through what a turn does to each of them.
-/

namespace DartUdp.Endpoint

open Std (TreeMap)
open DartUdp.Lib DartUdp.Udp DartUdp.Core

variable (suite : Suite) (hmac : (secret : Vector UInt8 32) → (message : Bytes) → Vector UInt8 32)
  (world : World)

/-- What the events had the core of the connection do: a datagram from its path, a
command that named it, or time. -/
def Caused (events : List Event) (id : Nat) (peer : SocketAddr) : Op → Prop
  | .onDatagram _ => False
  | .onDatagramBytes bytes => .received bytes peer ∈ events
  | .advanceTime _ => True
  | .openStream => ∃ response, .command (.openStream id response) ∈ events
  | .writeStream streamId data fin =>
      ∃ response, .command (.write id streamId data fin response) ∈ events
  | .readStream streamId maxLen =>
      ∃ response, .command (.read id streamId maxLen response) ∈ events
  | .close errorCode reason =>
      (∃ response, .command (.close id errorCode reason response) ∈ events) ∨
        errorCode = 4 ∧ reason = ascii "invalid datagram"
  | .drainOutput => True

/-- How a connection came to be: `connect` was called with its path, or a datagram
from its path asked for it, with a cookie where one is due. -/
def Begun (config : EndpointConfig) (events : List Event) (id : Nat) (r : Runtime)
    (c : Connection) : Prop :=
  match r.isServer with
  | false => ∃ entropy response, Connection.newClient suite id config.connection entropy = .ok c ∧
      id ≠ 0 ∧ .command (.connect r.path response) ∈ events
  | true => ∃ entropy bytes hello t,
      Connection.newServer suite id config.connection entropy = .ok c ∧
      .received bytes r.path.peer ∈ events ∧
      Opens hmac config bytes r.path.peer id hello (world.systemTime t)

/-- The connection is a run of the core that the events caused. -/
def Hosted (config : EndpointConfig) (events : List Event) (id : Nat) (r : Runtime) : Prop :=
  ∃ c ops, Begun suite hmac world config events id r c ∧
    (∀ op ∈ ops, Caused events id r.path.peer op) ∧ r.core = final suite c ops

variable {suite hmac world} {config : EndpointConfig} {events : List Event} {own : Op → Prop}
  {id : Nat} {s s' : EventLoop} {r r' : Runtime} {out : List (Nat × Response)} {lost : List Nat}
  {command : Command}

def commandsOf (events : List Event) : List Command :=
  events.filterMap fun
    | .command command => some command
    | _ => none

theorem mem_commandsOf : command ∈ commandsOf events ↔ .command command ∈ events := by
  rw [commandsOf, List.mem_filterMap]
  constructor
  · rintro ⟨event, hmem, hsome⟩
    cases event with
    | command c =>
        cases hsome
        exact hmem
    | _ => cases hsome
  · exact fun hmem => ⟨_, hmem, rfl⟩

/-- What a command asks of the connection it names is caused by it. -/
theorem caused_of_asks {op : Op} {peer : SocketAddr} (hmem : .command command ∈ events)
    (hid : command.connection = some id) (hasks : command.asks op) : Caused events id peer op := by
  cases command with
  | openStream id' response =>
      cases hid
      cases hasks
      exact ⟨_, hmem⟩
  | read id' streamId maxLen response =>
      cases hid
      cases hasks
      exact ⟨_, hmem⟩
  | write id' streamId data fin response =>
      cases hid
      cases hasks
      exact ⟨_, hmem⟩
  | close id' errorCode reason response =>
      cases hid
      cases hasks
      exact .inl ⟨_, hmem⟩
  | _ => exact hasks.elim

/-- What serves a waiter was asked for. -/
theorem caused_of_serves {op : Op} {peer : SocketAddr} (hr : r.Honest id (commandsOf events))
    (hserves : r.Serves op) : Caused events id peer op := by
  cases op with
  | drainOutput => trivial
  | readStream streamId maxLen =>
      obtain ⟨p, hp, rfl⟩ := hserves
      exact ⟨_, mem_commandsOf.1 (hr.reads streamId p hp)⟩
  | writeStream streamId data fin =>
      obtain ⟨p, hp, rfl, rfl⟩ := hserves
      exact ⟨_, mem_commandsOf.1 (hr.writes streamId p hp)⟩
  | _ => exact hserves.elim

theorem Begun.congr {c : Connection} (h : Begun suite hmac world config events id r c)
    (hpath : r'.path = r.path) (hserver : r'.isServer = r.isServer) :
    Begun suite hmac world config events id r' c := by
  unfold Begun at h ⊢
  rw [hserver, hpath]
  exact h

/-- A run goes on. -/
theorem Hosted.step {c : Option Command} (h : Hosted suite hmac world config events id r)
    (hr : r.Honest id (commandsOf events)) (hstep : r.Step suite own c out lost r')
    (hown : ∀ op, own op → Caused events id r.path.peer op)
    (hc : ∀ command, c = some command →
      .command command ∈ events ∧ command.connection = some id) :
    Hosted suite hmac world config events id r' := by
  obtain ⟨c₀, ops, hbegun, hcaused, hcore⟩ := h
  obtain ⟨more, hmore, hcore'⟩ := hstep.core
  refine ⟨c₀, ops ++ more, hbegun.congr hstep.path hstep.isServer, fun op hop => ?_, ?_⟩
  · rw [hstep.path]
    rcases List.mem_append.1 hop with hold | hnew
    · exact hcaused op hold
    · rcases hmore op hnew with h | ⟨command, hcommand, hasks⟩ | hserves
      · exact hown op h
      · exact caused_of_asks (hc command hcommand).1 (hc command hcommand).2 hasks
      · exact caused_of_serves hr hserves
  · rw [hcore', hcore, final_append]

/-! ## The connections there are -/

variable (suite hmac world config events) in
/-- Each connection is a run of the core, and who waits with it asked. -/
def Lives (id : Nat) (r : Runtime) : Prop :=
  Hosted suite hmac world config events id r ∧ r.Honest id (commandsOf events)

/-- Each connection lives, and there are not too many. -/
structure EventLoop.Hosts (suite : Suite)
    (hmac : (secret : Vector UInt8 32) → (message : Bytes) → Vector UInt8 32) (world : World)
    (config : EndpointConfig) (events : List Event) (s : EventLoop) : Prop where
  configured : s.config = config
  lives : s.Every (Lives suite hmac world config events)
  room : s.connections.size ≤ config.maxConnections

theorem Lives.step (h : Lives suite hmac world config events id r)
    (hstep : r.Step suite own none out lost r')
    (hown : ∀ op, own op → Caused events id r.path.peer op) :
    Lives suite hmac world config events id r' :=
  ⟨h.1.step h.2 hstep hown nofun, h.2.step hstep⟩

theorem size_put (h : s.connections[id]? = some r) (r' : Runtime) :
    (s.put id r').connections.size = s.connections.size := by
  have hmem : s.connections.contains id = true := by
    rw [TreeMap.contains_eq_isSome_getElem?, h]
    rfl
  rw [EventLoop.put, TreeMap.size_insert]
  exact if_pos hmem

theorem Touch.size_le (h : Touch suite own id s s') :
    s'.connections.size ≤ s.connections.size := by
  cases h with
  | asked n => exact le_refl _
  | changed hr hstep => exact (size_put hr _).le
  | sent hr hencode => exact le_refl _
  | handed => exact le_refl _
  | removed hr hout => exact TreeMap.size_erase_le

theorem Worked.size_le (h : Worked suite own s s') :
    s'.connections.size ≤ s.connections.size := by
  induction h with
  | refl => exact le_refl _
  | tail _ htouch ih =>
      obtain ⟨id, htouch⟩ := htouch
      exact htouch.size_le.trans ih

theorem EventLoop.Hosts.worked (h : s.Hosts suite hmac world config events)
    (hworked : Worked suite own s s')
    (hown : ∀ id peer op, own op → Caused events id peer op) :
    s'.Hosts suite hmac world config events where
  configured := (congrArg (·.1) hworked.given.1).trans h.configured
  lives := hworked.every h.lives fun id _ _ _ hstep hr =>
    hr.step hstep fun op hop => hown id _ op hop
  room := hworked.size_le.trans h.room

/-- The same for the steps of one connection, which know its path. -/
theorem EventLoop.Hosts.touched (h : s.Hosts suite hmac world config events)
    (htouched : Touched suite own id s s') {peer : SocketAddr}
    (hpeer : ∀ r, s.connections[id]? = some r → r.path.peer = peer)
    (hown : ∀ op, own op → Caused events id peer op) :
    s'.Hosts suite hmac world config events where
  configured := (congrArg (·.1) htouched.worked.given.1).trans h.configured
  lives := by
    have hevery : s.Every fun id' r => Lives suite hmac world config events id' r ∧
        (id' = id → r.path.peer = peer) :=
      fun id' r hr => ⟨h.lives id' r hr, fun heq => hpeer r (heq ▸ hr)⟩
    have hkept := htouched.every hevery fun r r' out hstep hr =>
      ⟨hr.1.step hstep fun op hop => hr.2 rfl ▸ hown op hop, fun heq => by
        rw [hstep.path]
        exact hr.2 heq⟩
    exact fun id' r hr => (hkept id' r hr).1
  room := htouched.worked.size_le.trans h.room

theorem timeOwn_caused (id : Nat) (peer : SocketAddr) (op : Op) (h : timeOwn op) :
    Caused events id peer op := by
  cases op with
  | advanceTime elapsed => trivial
  | _ => exact h.elim

theorem datagramOwn_caused {bytes : Bytes} {peer : SocketAddr}
    (hmem : .received bytes peer ∈ events) (op : Op) (h : datagramOwn bytes op) :
    Caused events id peer op := by
  cases op with
  | onDatagramBytes received => exact (h : received = bytes) ▸ hmem
  | close errorCode reason => exact .inr h
  | _ => exact h.elim

/-! ## New connections -/

/-- A connection is made where there is none and there is room. -/
theorem EventLoop.Hosts.put (h : s.Hosts suite hmac world config events) (n : Nat)
    (hnone : s.connections[id]? = none) (hroom : s.connections.size < s.config.maxConnections)
    (hr : Lives suite hmac world config events id r) :
    ({ s with questions := n }.put id r).Hosts suite hmac world config events where
  configured := h.configured
  lives := h.lives.put_new n hr
  room := by
    have hmem : s.connections.contains id = false := by
      rw [TreeMap.contains_eq_isSome_getElem?, hnone]
      rfl
    have hsize : (s.connections.insert id r).size = s.connections.size + 1 := by
      rw [TreeMap.size_insert]
      exact if_neg (by rw [hmem]; exact Bool.false_ne_true)
    show (s.connections.insert id r).size ≤ _
    rw [hsize, ← h.configured]
    exact hroom

theorem lives_ofConnect {path : PathBinding} {response now : Nat} {core : Connection}
    {entropy : Entropy} (hmem : .command (.connect path response) ∈ events) (hid : id ≠ 0)
    (hcore : Connection.newClient suite id config.connection entropy = .ok core) :
    Lives suite hmac world config events id (.ofConnect core path now response) :=
  ⟨⟨core, [], ⟨entropy, response, hcore, hid, hmem⟩, nofun, rfl⟩, honest_new rfl rfl⟩

theorem lives_ofDatagram {bytes : Bytes} {peer : SocketAddr} {hello : ClientHello} {t now : Nat}
    {core : Connection} {entropy : Entropy} (hmem : .received bytes peer ∈ events)
    (hopens : Opens hmac config bytes peer id hello (world.systemTime t))
    (hcore : Connection.newServer suite id config.connection entropy = .ok core) :
    Lives suite hmac world config events id (.ofDatagram core peer now) :=
  ⟨⟨core, [], ⟨entropy, bytes, hello, t, hcore, hmem, hopens⟩, nofun, rfl⟩, honest_new rfl rfl⟩

/-! ## Events -/

theorem EventLoop.Hosts.asked (h : s.Hosts suite hmac world config events) (command : Command) :
    { s with asked := s.asked ++ [command] }.Hosts suite hmac world config events :=
  ⟨h.configured, h.lives, h.room⟩

theorem Taken.hosts (h : s.Hosts suite hmac world config events)
    (hmem : .command command ∈ events) (htaken : Taken suite command id s s') :
    s'.Hosts suite hmac world config events := by
  cases htaken with
  | @stepped r r' out lost hid hr hstep hlost =>
      have hlives := h.lives id r hr
      have hcommand : command ∈ commandsOf events := mem_commandsOf.2 hmem
      refine ⟨h.configured, EventLoop.Every.put h.lives ⟨?_, ?_⟩, (size_put hr r').trans_le h.room⟩
      · refine hlives.1.step hlives.2 hstep (fun _ hnone => hnone.elim) fun c hc => ?_
        cases hc
        exact ⟨hmem, hid⟩
      · exact hlives.2.taken hid hcommand hstep
  | answered hout => exact ⟨h.configured, h.lives, h.room⟩

theorem Handled.hosts (h : s.Hosts suite hmac world config events)
    (hmem : .command command ∈ events) (hhandled : Handled suite command s s') :
    s'.Hosts suite hmac world config events := by
  have hnone : ∀ (id : Nat) (peer : SocketAddr) op, noneOwn op → Caused events id peer op :=
    fun _ _ _ hop => hop.elim
  cases hhandled with
  | taken htaken hrest => exact (htaken.hosts h hmem).worked hrest.worked hnone
  | opened hcommand hid hfree hroom hcore hrest =>
      rw [h.configured] at hcore
      exact (h.put _ hfree hroom (lives_ofConnect (hcommand ▸ hmem) hid hcore)).worked
        hrest.worked hnone

theorem Met.hosts {bytes : Bytes} {peer : SocketAddr}
    (h : s.Hosts suite hmac world config events)
    (hmem : bytes.length ≤ config.connection.maxDatagramSize → .received bytes peer ∈ events)
    (hmet : Met suite hmac world bytes peer s s') : s'.Hosts suite hmac world config events := by
  cases hmet with
  | refused hrefused =>
      cases hrefused with
      | ignored n hs' => exact hs' ▸ ⟨h.configured, h.lives, h.room⟩
      | retried henabled hlen hs' => exact hs' ▸ ⟨h.configured, h.lives, h.room⟩
  | delivered hlen hid hr hpeer hrest =>
      rw [h.configured] at hlen
      refine h.touched hrest (fun r' hr' => ?_) (datagramOwn_caused (hmem hlen))
      rw [hr] at hr'
      cases hr'
      exact hpeer
  | @admitted id s₁ hlen hid hnone hadmitted hrest =>
      obtain ⟨hroom, hopens, hcore, hs₁⟩ := hadmitted
      rw [h.configured] at hlen hopens hcore
      rw [hs₁] at hrest
      refine (h.put _ hnone hroom (lives_ofDatagram (hmem hlen) hopens hcore)).touched hrest
        (fun r hr => ?_) (datagramOwn_caused (hmem hlen))
      rw [EventLoop.put, TreeMap.getElem?_insert_self] at hr
      cases hr
      rfl

theorem Turned.hosts {event : Event} (h : s.Hosts suite hmac world config events)
    (hmem : event ∈ events) (hturn : Turned suite hmac world event s s') :
    s'.Hosts suite hmac world config events := by
  cases hturn with
  | rested htime => exact h.worked htime timeOwn_caused
  | handled hevent htime hhandled =>
      have h₁ := h.worked htime timeOwn_caused
      exact hhandled.hosts (h₁.asked _) (hevent ▸ hmem)
  | @met datagram peer s₁ hevent htime hmet =>
      have h₁ := h.worked htime timeOwn_caused
      refine hmet.hosts h₁ fun hlen => ?_
      -- a datagram within the limit was not cut short by the buffer
      rw [h₁.configured, List.length_take] at hlen
      rw [List.take_of_length_le (by rw [h₁.configured]; omega)]
      exact hevent ▸ hmem

variable (suite hmac world) in
theorem step_hosts {event : Event} (h : s.Hosts suite hmac world config events)
    (hmem : event ∈ events) :
    (s.step suite hmac world event).Hosts suite hmac world config events := by
  have hstepped : Stepped suite hmac world event s (s.step suite hmac world event) :=
    step_stepped event s
  generalize s.step suite hmac world event = s' at hstepped
  cases hstepped with
  | stays hstopped hs' => exact hs' ▸ h
  | goesOn hrunning hturn => exact hturn.hosts h hmem
  | stops hrunning hturn hclose hwaiting hs' =>
      have h₂ := (hturn.hosts h hmem).worked hclose fun _ _ _ hop => hop.elim
      exact hs' ▸ ⟨h₂.configured, h₂.lives, h₂.room⟩

variable (suite hmac world) in
/-- In every run of the loop each connection it has is a run of the core: one begun
by `connect` or by a datagram with a cookie, with the datagrams that came from its path,
the commands that named it and the passing of time, and nothing else. Nor are there
more connections than the configuration allows. -/
theorem hosts_runs (config : EndpointConfig) (events : List Event) :
    let s := EventLoop.run suite hmac world { config := config } events
    s.connections.size ≤ config.maxConnections ∧
      ∀ (id : Nat) r, s.connections[id]? = some r → Hosted suite hmac world config events id r := by
  have hstart : EventLoop.Hosts suite hmac world config events { config := config } :=
    ⟨rfl, fun _ _ => nofun, Nat.zero_le _⟩
  have hrun : (EventLoop.run suite hmac world { config := config } events).Hosts
      suite hmac world config events :=
    List.foldlRecOn events _ hstart fun s h event hmem => step_hosts suite hmac world h hmem
  exact ⟨hrun.room, fun id r hr => (hrun.lives id r hr).1⟩

end DartUdp.Endpoint
