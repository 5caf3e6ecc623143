import DartUdp.Proofs.EndpointTurns
import DartUdp.Proofs.RetryCookie

/-!
# What an address gets that asked for nothing

The address a datagram comes from may be forged, and then whatever is sent back
hits a stranger. Before an address has shown a cookie made for it the endpoint
keeps nothing of it, and of what it sends there, each datagram answers one from
there that was at least as long.

The module is for `replies_within`. `Met.avoids` counts what a datagram makes the
endpoint send and `step_avoids` what a turn does; the run is the sum.
-/

namespace DartUdp.Endpoint

open Std (TreeMap)
open DartUdp.Lib DartUdp.Udp DartUdp.Core

/-- How many bytes were sent to an address. -/
def EventLoop.bytesTo (s : EventLoop) (address : SocketAddr) : Nat :=
  (s.sent.map fun datagram => if datagram.1 = address then datagram.2.length else 0).sum

/-- How many bytes came from an address. -/
def bytesFrom (address : SocketAddr) : List Event → Nat
  | [] => 0
  | .received datagram peer :: rest =>
      (if peer = address then datagram.length else 0) + bytesFrom address rest
  | _ :: rest => bytesFrom address rest

variable {suite : Suite}
  {hmac : (secret : Vector UInt8 32) → (message : Bytes) → Vector UInt8 32}
  {world : World} {config : EndpointConfig} {own : Op → Prop} {id : Nat} {s s' : EventLoop}
  {address : SocketAddr}

variable (address) in
theorem bytesTo_append (s : EventLoop) (peer : SocketAddr) (bytes : Bytes) :
    ({ s with sent := s.sent ++ [(peer, bytes)] } : EventLoop).bytesTo address =
      s.bytesTo address + if peer = address then bytes.length else 0 := by
  rw [EventLoop.bytesTo, List.map_append, List.sum_append]
  rfl

/-- No connection is with the address. -/
def EventLoop.Avoids (s : EventLoop) (address : SocketAddr) : Prop :=
  s.Every fun _ r => r.path.peer ≠ address

/-- What is done to the connections there are sends nothing to it. -/
theorem Touch.avoids (h : s.Avoids address) (htouch : Touch suite own id s s') :
    s'.Avoids address ∧ s'.bytesTo address = s.bytesTo address := by
  refine ⟨htouch.every h fun r r' out hstep hr => hstep.path ▸ hr, ?_⟩
  cases htouch with
  | asked n => rfl
  | changed hr hstep => rfl
  | sent hr hencode =>
      rw [bytesTo_append, if_neg (h id _ hr)]
      rfl
  | handed => rfl
  | removed hr hout => rfl

theorem Worked.avoids (h : s.Avoids address) (hworked : Worked suite own s s') :
    s'.Avoids address ∧ s'.bytesTo address = s.bytesTo address := by
  induction hworked with
  | refl => exact ⟨h, rfl⟩
  | tail _ htouch ih =>
      obtain ⟨id, htouch⟩ := htouch
      obtain ⟨havoids, hbytes⟩ := htouch.avoids ih.1
      exact ⟨havoids, hbytes.trans ih.2⟩

theorem Taken.avoids {command : Command} (h : s.Avoids address)
    (htaken : Taken suite command id s s') :
    s'.Avoids address ∧ s'.bytesTo address = s.bytesTo address := by
  cases htaken with
  | stepped hid hr hstep hlost => exact ⟨EventLoop.Every.put h (hstep.path ▸ h id _ hr), rfl⟩
  | answered hout => exact ⟨h, rfl⟩

theorem Handled.avoids {command : Command} (h : s.Avoids address)
    (hconnect : ∀ path response, command = .connect path response → path.peer ≠ address)
    (hhandled : Handled suite command s s') :
    s'.Avoids address ∧ s'.bytesTo address = s.bytesTo address := by
  cases hhandled with
  | taken htaken hrest =>
      obtain ⟨havoids, hbytes⟩ := htaken.avoids h
      obtain ⟨havoids', hbytes'⟩ := hrest.worked.avoids havoids
      exact ⟨havoids', hbytes'.trans hbytes⟩
  | @opened path response id n now core entropy hcommand hid hnone hroom hcore hrest =>
      have hput : ({ s with questions := n }.put id
          (.ofConnect core path now response)).Avoids address :=
        EventLoop.Every.put_new h n (hconnect _ _ hcommand)
      obtain ⟨havoids, hbytes⟩ := Worked.avoids hput hrest.worked
      exact ⟨havoids, hbytes⟩

/-- A datagram is answered with no more than it brought. -/
theorem Met.avoids {bytes : Bytes} {peer : SocketAddr} (h : s.Avoids address)
    (hhello : bytes.length ≤ s.config.connection.maxDatagramSize → peer = address →
      ∀ id hello t, ¬ Opens hmac s.config bytes peer id hello (world.systemTime t))
    (hmet : Met suite hmac world bytes peer s s') :
    s'.Avoids address ∧
      s'.bytesTo address ≤ s.bytesTo address + if peer = address then bytes.length else 0 := by
  cases hmet with
  | refused hrefused =>
      cases hrefused with
      | ignored n hs' => exact hs' ▸ ⟨h, Nat.le_add_right _ _⟩
      | @retried n reply henabled hlen hs' =>
          refine ⟨hs' ▸ h, ?_⟩
          have hbytes := bytesTo_append address s peer reply
          rw [hs']
          refine hbytes.le.trans (Nat.add_le_add_left ?_ _)
          split
          · exact hlen
          · exact le_refl _
  | delivered hlen hid hr hpeer hrest =>
      obtain ⟨havoids, hbytes⟩ := hrest.worked.avoids h
      exact ⟨havoids, hbytes.trans_le (Nat.le_add_right _ _)⟩
  | @admitted id s₁ hlen hid hnone hadmitted hrest =>
      obtain @⟨n, now, t, hello, core, entropy, hroom, hopens, hcore, hs₁⟩ := hadmitted
      rw [hs₁] at hrest
      have hpeer : peer ≠ address := fun heq => hhello hlen heq _ hello t hopens
      have hput : ({ s with questions := n }.put id (.ofDatagram core peer now)).Avoids address :=
        EventLoop.Every.put_new h n hpeer
      obtain ⟨havoids, hbytes⟩ := Worked.avoids hput hrest.worked
      exact ⟨havoids, hbytes.trans_le (Nat.le_add_right _ _)⟩

/-! ## Runs -/

variable (hmac world config address) in
/-- An event that neither opens a connection to the address nor comes from it with
a cookie of its own. -/
def Harmless : Event → Prop
  | .command (.connect path _) => path.peer ≠ address
  | .received bytes peer => peer = address → ∀ id hello t,
      ¬ Opens hmac config bytes peer id hello (world.systemTime t)
  | _ => True

variable (address) in
theorem bytesFrom_cons (event : Event) (events : List Event) :
    bytesFrom address (event :: events) = bytesFrom address [event] + bytesFrom address events := by
  cases event with
  | received datagram peer => exact (Nat.add_zero _).symm ▸ rfl
  | _ => exact (Nat.zero_add _).symm

theorem Turned.avoids {event : Event} (hconfig : s.config = config) (h : s.Avoids address)
    (hevent : Harmless hmac world config address event)
    (hturn : Turned suite hmac world event s s') :
    s'.Avoids address ∧ s'.bytesTo address ≤ s.bytesTo address + bytesFrom address [event] := by
  cases hturn with
  | rested htime =>
      obtain ⟨havoids, hbytes⟩ := htime.avoids h
      exact ⟨havoids, hbytes.trans_le (Nat.le_add_right _ _)⟩
  | @handled command s₁ hcommand htime hhandled =>
      subst hcommand
      obtain ⟨havoids, hbytes⟩ := htime.avoids h
      have hconnect : ∀ path response, command = .connect path response → path.peer ≠ address :=
        fun path response heq => by
          subst heq
          exact hevent
      have hasked : ({ s₁ with asked := s₁.asked ++ [command] } : EventLoop).Avoids address :=
        havoids
      obtain ⟨havoids', hbytes'⟩ := hhandled.avoids hasked hconnect
      exact ⟨havoids', (hbytes'.trans hbytes).trans_le (Nat.le_add_right _ _)⟩
  | @met datagram peer s₁ hreceived htime hmet =>
      subst hreceived
      obtain ⟨havoids, hbytes⟩ := htime.avoids h
      have hconfig₁ : s₁.config = config := (congrArg (·.1) htime.given.1).trans hconfig
      have hhello : (datagram.take (s₁.config.connection.maxDatagramSize + 1)).length ≤
          s₁.config.connection.maxDatagramSize → peer = address → ∀ id hello t,
            ¬ Opens hmac s₁.config (datagram.take (s₁.config.connection.maxDatagramSize + 1))
              peer id hello (world.systemTime t) := fun hlen heq => by
        rw [List.length_take] at hlen
        rw [List.take_of_length_le (by omega), hconfig₁]
        exact hevent heq
      obtain ⟨havoids', hbytes'⟩ := hmet.avoids havoids hhello
      refine ⟨havoids', hbytes'.trans (Nat.add_le_add hbytes.le ?_)⟩
      show _ ≤ (if peer = address then datagram.length else 0) + 0
      split
      · exact List.length_take_le' _ _
      · exact le_refl _

variable (suite) in
/-- One step sends the address no more than the event brought from it. -/
theorem step_avoids {event : Event} (hconfig : s.config = config) (h : s.Avoids address)
    (hevent : Harmless hmac world config address event) :
    (s.step suite hmac world event).config = config ∧
      (s.step suite hmac world event).Avoids address ∧
      (s.step suite hmac world event).bytesTo address ≤
        s.bytesTo address + bytesFrom address [event] := by
  have hstepped : Stepped suite hmac world event s (s.step suite hmac world event) :=
    step_stepped event s
  generalize s.step suite hmac world event = s' at hstepped
  cases hstepped with
  | stays hstopped hs' =>
      subst hs'
      exact ⟨hconfig, h, Nat.le_add_right _ _⟩
  | goesOn hrunning hturn =>
      exact ⟨hturn.given.1.trans hconfig, hturn.avoids hconfig h hevent⟩
  | @stops s₁ s₂ hrunning hturn hclose hwaiting hs' =>
      obtain ⟨havoids, hbytes⟩ := hturn.avoids hconfig h hevent
      obtain ⟨havoids', hbytes'⟩ := hclose.avoids havoids
      have hconfig' : s₂.config = config :=
        (congrArg (·.1) hclose.given.1).trans (hturn.given.1.trans hconfig)
      exact hs' ▸ ⟨hconfig', havoids', hbytes'.trans_le hbytes⟩

variable (suite hmac world) in
/-- In every run of the loop an address to which it was not asked to connect, and
from which no cookie made for it has come, gets at most as many bytes as came from
there, and no connection is with it. -/
theorem replies_within {config : EndpointConfig} {events : List Event} {address : SocketAddr}
    (hconnect : ∀ path response, .command (.connect path response) ∈ events →
      path.peer ≠ address)
    (hhello : ∀ bytes id hello t, .received bytes address ∈ events →
      ¬ Opens hmac config bytes address id hello (world.systemTime t)) :
    let s := EventLoop.run suite hmac world { config := config } events
    s.bytesTo address ≤ bytesFrom address events ∧
      ∀ (id : Nat) r, s.connections[id]? = some r → r.path.peer ≠ address := by
  have hrun : ∀ (events : List Event) (s : EventLoop),
      (∀ event ∈ events, Harmless hmac world config address event) → s.config = config →
      s.Avoids address →
      (s.run suite hmac world events).bytesTo address ≤
          s.bytesTo address + bytesFrom address events ∧
        (s.run suite hmac world events).Avoids address := by
    intro events
    induction events with
    | nil => exact fun s _ _ havoids => ⟨Nat.le_add_right _ _, havoids⟩
    | cons event rest ih =>
        intro s hharmless hconfig havoids
        obtain ⟨hconfig₁, havoids₁, hbytes₁⟩ :=
          step_avoids suite hconfig havoids (hharmless event List.mem_cons_self)
        obtain ⟨hbytes, havoids'⟩ := ih (s.step suite hmac world event)
          (fun e he => hharmless e (List.mem_cons_of_mem _ he)) hconfig₁ havoids₁
        refine ⟨hbytes.trans ?_, havoids'⟩
        rw [bytesFrom_cons address event rest, ← add_assoc]
        exact Nat.add_le_add_right hbytes₁ _
  have hharmless : ∀ event ∈ events, Harmless hmac world config address event := by
    intro event hmem
    cases event with
    | received bytes peer => exact fun heq id hello t => heq ▸ hhello bytes id hello t (heq ▸ hmem)
    | command command =>
        cases command with
        | connect path response => exact hconnect path response hmem
        | _ => trivial
    | _ => trivial
  obtain ⟨hbytes, havoids⟩ := hrun events { config := config } hharmless rfl fun _ _ => nofun
  exact ⟨hbytes.trans (Nat.zero_add _).le, havoids⟩

/-! ## A hello without a cookie -/

/-- One in which it is second 1000, and the socket takes all of what it is given. -/
def sampleWorld : World where
  instant _ := 0
  systemTime _ := sampleTime 1000 (by decide)
  entropy _ := sampleEntropy .server
  draws _ := [7]
  sendTo _ := .ok 58
  tryAccept _ := .sent
  order _ keys := keys
  order_perm _ _ := .refl _

/-- HMAC-SHA256 of what a cookie for the client of `samplePackets` is made from. -/
def retryMac (_ : Vector UInt8 32) (_ : Bytes) : Vector UInt8 32 :=
  let tag := beBytes 32 0x131c4bb70db68569214d9e64200095c5b0bce7c73d22f9bd74de044140db1334
  .ofFn fun i => tag.getD i 0

def retryingConfig : EndpointConfig := { retry := { cookieSecret := some (.replicate 32 9) } }

/-- The hello of `samplePackets` as it is on the wire. -/
def sampleHello : Bytes := match samplePackets with
  | packet :: _ => (encodePacket packet 1200).toOption.getD []
  | [] => []

def bringsNoCookie : Frame → Bool
  | .clientHello hello => hello.cookie == []
  | _ => false

theorem replies_within_sample :
    let s := EventLoop.run sampleSuite retryMac sampleWorld { config := retryingConfig }
      [.received sampleHello (samplePeer 4000)]
    0 < s.bytesTo (samplePeer 4000) ∧
      s.bytesTo (samplePeer 4000) ≤
        bytesFrom (samplePeer 4000) [.received sampleHello (samplePeer 4000)] := by
  refine ⟨by decide +kernel, (replies_within sampleSuite retryMac sampleWorld ?_ ?_).1⟩
  · simp
  · intro bytes id hello t hmem hopens
    cases List.mem_singleton.1 hmem
    obtain ⟨packet, hdecode, _, hframes⟩ := hopens.packet
    have hcheck : checks (decodePacket sampleHello 1200) (·.frames.all bringsNoCookie) = true := by
      decide +kernel
    rw [show decodePacket sampleHello 1200 = .ok packet from hdecode] at hcheck
    have hcookie : hello.cookie = [] := by simpa [checks, hframes, bringsNoCookie] using hcheck
    obtain ⟨secret, _, hvalid⟩ := hopens.vouched rfl
    rw [validateCookie, hcookie, if_pos (.inl (by decide))] at hvalid
    exact absurd hvalid (by decide)

end DartUdp.Endpoint
