import DartUdp.Proofs.EndpointTurns

/-!
# Every request is answered once

A command brings the sender of a `oneshot` channel along. Until it is used it is
kept with a connection, and it must neither be used twice nor be forgotten. The
account of the loop (what was answered, what was dropped and what waits) is the
same before and after every step but for the requests that come in, so at any
time it holds the requests of all commands taken.

A sender can be dropped without an answer, in one way: the map of the pending
reads has room for one a stream, and a second read takes the place of the first.
So it is with the writes.

The module is for `answered_once`. `Touch.account` says that a step keeps the
account and `Turned.balanced` that a turn does, up to its own requests; `Superseded`
names the requests whose place was taken.
-/

namespace DartUdp.Endpoint

open Std (TreeMap)
open DartUdp.Lib DartUdp.Udp DartUdp.Core

variable {suite : Suite}
  {hmac : (secret : Vector UInt8 32) → (message : Bytes) → Vector UInt8 32}
  {world : World} {own : Op → Prop} {id : Nat} {s s' : EventLoop} {r r' : Runtime}
  {out : List (Nat × Response)} {lost : List Nat} {command : Command}

/-! ## The account -/

/-- A connection that is written over changes what waits by what it had waiting. -/
theorem waiting_put (h : s.connections[id]? = some r) (r' : Runtime) :
    (s.put id r').waiting + r.waiting = s.waiting + r'.waiting :=
  total_insert_of_get r' Runtime.waiting h

theorem stepped_account (h : s.connections[id]? = some r) {c : Option Command}
    (hstep : r.Step suite own c out lost r') :
    (s.stepped id r' out lost).account = s.account + requests c := by
  have hput := waiting_put h r'
  have hwaiters := hstep.waiters
  have hwaiting : (s.stepped id r' out lost).waiting = (s.put id r').waiting := rfl
  have hsum : (s.put id r').waiting + answered out + lost = s.waiting + requests c := by
    refine add_right_cancel (b := r'.waiting) ?_
    calc (s.put id r').waiting + answered out + lost + r'.waiting
        = (s.put id r').waiting + (answered out + lost + r'.waiting) := by abel
      _ = (s.put id r').waiting + r.waiting + requests c := by rw [← hwaiters]; abel
      _ = s.waiting + requests c + r'.waiting := by rw [hput]; abel
  rw [EventLoop.account, hwaiting]
  show answered (s.answers ++ out) + (s.dropped ++ lost : List Nat) + (s.put id r').waiting = _
  rw [answered_append, ← Multiset.coe_add]
  calc answered s.answers + answered out + (s.dropped + lost) + (s.put id r').waiting
      = answered s.answers + s.dropped + ((s.put id r').waiting + answered out + lost) := by abel
    _ = s.account + requests c := by rw [hsum, EventLoop.account]; abel

theorem Touch.account (h : Touch suite own id s s') : s'.account = s.account := by
  cases h with
  | asked n => rfl
  | changed h hstep =>
      rw [EventLoop.stepped_out, stepped_account h hstep]
      exact add_zero _
  | sent h hencode => rfl
  | handed => rfl
  | removed h hout =>
      have herase := total_erase Runtime.waiting h
      simp only [EventLoop.account, EventLoop.waiting, answered_append, hout, ← herase]
      abel

theorem Worked.account (h : Worked suite own s s') : s'.account = s.account := by
  induction h with
  | refl => rfl
  | tail _ htouch ih =>
      obtain ⟨id, htouch⟩ := htouch
      rw [htouch.account, ih]

theorem Touched.account (h : Touched suite own id s s') : s'.account = s.account :=
  h.worked.account

theorem Taken.account (h : Taken suite command id s s') :
    s'.account = s.account + command.responses := by
  cases h with
  | stepped hid h hstep hlost => exact stepped_account h hstep
  | answered hout =>
      simp only [EventLoop.account, EventLoop.waiting, answered_append, hout]
      abel

theorem Handled.account (h : Handled suite command s s') :
    s'.account = s.account + command.responses := by
  cases h with
  | taken htaken hrest => rw [hrest.account, htaken.account]
  | @opened path response id n now core entropy hcommand hid hnone hroom hcore hrest =>
      have hwaiting : (Runtime.ofConnect core path now response).waiting = {response} := rfl
      have hput : (({ s with questions := n } : EventLoop).put id
          (.ofConnect core path now response)).waiting = s.waiting + {response} := by
        rw [← hwaiting]
        exact total_insert_of_none _ Runtime.waiting hnone
      rw [hrest.account, hcommand, EventLoop.account, hput, Command.responses,
        Multiset.coe_singleton, EventLoop.account, ← add_assoc]
      rfl

theorem Met.account {bytes : Bytes} {peer : SocketAddr} (h : Met suite hmac world bytes peer s s') :
    s'.account = s.account := by
  cases h with
  | refused h =>
      cases h with
      | ignored n h => rw [h]; rfl
      | retried henabled hlen h => rw [h]; rfl
  | delivered hlen hid h hpeer hrest => exact hrest.account
  | admitted hlen hid hnone h hrest =>
      obtain @⟨n, now, t, hello, core, entropy, hroom, hopens, hcore, h⟩ := h
      have hput : (({ s with questions := n } : EventLoop).put _
          (.ofDatagram core peer now)).waiting = s.waiting + 0 :=
        total_insert_of_none _ Runtime.waiting hnone
      rw [hrest.account, h, EventLoop.account, hput, add_zero, EventLoop.account]
      rfl

/-! ## Whose place was taken -/

/-- Two reads, or two writes, on one stream. -/
def SameStream : Command → Command → Prop
  | .read id streamId _ _, .read id' streamId' _ _ => id = id' ∧ streamId = streamId'
  | .write id streamId _ _ _, .write id' streamId' _ _ _ => id = id' ∧ streamId = streamId'
  | _, _ => False

/-- The request of a command after which another of its kind came for the stream. -/
def Superseded (asked : List Command) (response : Nat) : Prop :=
  ∃ earlier later, [earlier, later].Sublist asked ∧ response ∈ earlier.responses ∧
    SameStream earlier later

/-- Whoever waits to read or to write asked for it. -/
structure Runtime.Honest (id : Nat) (asked : List Command) (r : Runtime) : Prop where
  reads : ∀ (streamId : Nat) p, r.pendingReads[streamId]? = some p →
    Command.read id streamId p.maxLen p.response ∈ asked
  writes : ∀ (streamId : Nat) p, r.pendingWrites[streamId]? = some p →
    Command.write id streamId p.data p.fin p.response ∈ asked

structure EventLoop.Honest (s : EventLoop) : Prop where
  waiters : s.Every fun id r => r.Honest id s.asked
  dropped : ∀ response ∈ s.dropped, Superseded s.asked response

theorem Superseded.mono {asked : List Command} {response : Nat} (h : Superseded asked response)
    (command : Command) : Superseded (asked ++ [command]) response := by
  obtain ⟨earlier, later, hsub, hresponse, hsame⟩ := h
  exact ⟨earlier, later, hsub.trans (List.sublist_append_left _ _), hresponse, hsame⟩

theorem Runtime.Honest.mono {asked : List Command} (h : r.Honest id asked) (command : Command) :
    r.Honest id (asked ++ [command]) where
  reads := fun streamId p hp => List.mem_append_left _ (h.reads streamId p hp)
  writes := fun streamId p hp => List.mem_append_left _ (h.writes streamId p hp)

theorem Runtime.Honest.step {asked : List Command} (h : r.Honest id asked)
    (hstep : r.Step suite own none out lost r') : r'.Honest id asked where
  reads := fun streamId p hp =>
    (hstep.reads streamId p hp).elim (h.reads streamId p) fun ⟨_, hc⟩ => nomatch hc
  writes := fun streamId p hp =>
    (hstep.writes streamId p hp).elim (h.writes streamId p) fun ⟨_, hc⟩ => nomatch hc

/-- Who waits after a command waited before or asked just now. -/
theorem Runtime.Honest.taken {asked : List Command} (h : r.Honest id asked)
    (hid : command.connection = some id) (hcommand : command ∈ asked)
    (hstep : r.Step suite own (some command) out lost r') : r'.Honest id asked where
  reads := fun streamId p hp => by
    rcases hstep.reads streamId p hp with hold | ⟨id', hc⟩
    · exact h.reads streamId p hold
    · cases hc
      cases hid
      exact hcommand
  writes := fun streamId p hp => by
    rcases hstep.writes streamId p hp with hold | ⟨id', hc⟩
    · exact h.writes streamId p hold
    · cases hc
      cases hid
      exact hcommand

theorem EventLoop.Honest.worked (h : s.Honest) (hworked : Worked suite own s s') : s'.Honest := by
  obtain ⟨hgiven, hdropped⟩ := hworked.given
  have hasked : s'.asked = s.asked := congrArg (·.2.1) hgiven
  refine ⟨?_, hasked ▸ hdropped ▸ h.dropped⟩
  rw [hasked]
  exact hworked.every h.waiters fun _ _ _ _ hstep hr => hr.step hstep

theorem EventLoop.Honest.touched (h : s.Honest) (htouched : Touched suite own id s s') :
    s'.Honest := h.worked htouched.worked

/-- Whose place a command takes asked for it before. -/
theorem Runtime.Honest.displaced {asked : List Command} (h : r.Honest id asked)
    (hid : command.connection = some id) {response : Nat} (hmem : response ∈ r.displaced command) :
    Superseded (asked ++ [command]) response := by
  have hpair : ∀ earlier ∈ asked, [earlier, command].Sublist (asked ++ [command]) :=
    fun earlier hearlier => (List.singleton_sublist.2 hearlier).append (List.Sublist.refl [command])
  cases command with
  | read id' streamId maxLen new =>
      cases hid
      obtain ⟨p, hp, rfl⟩ := Option.map_eq_some_iff.1 (Option.mem_toList.1 hmem)
      exact ⟨_, _, hpair _ (h.reads streamId p hp), List.mem_singleton_self _, rfl, rfl⟩
  | write id' streamId data fin new =>
      cases hid
      obtain ⟨p, hp, rfl⟩ := Option.map_eq_some_iff.1 (Option.mem_toList.1 hmem)
      exact ⟨_, _, hpair _ (h.writes streamId p hp), List.mem_singleton_self _, rfl, rfl⟩
  | _ => exact absurd hmem List.not_mem_nil

theorem EventLoop.Honest.asked (h : s.Honest) (command : Command) :
    { s with asked := s.asked ++ [command] }.Honest where
  waiters := fun id r hr => (h.waiters id r hr).mono command
  dropped := fun response hresponse => (h.dropped response hresponse).mono command

/-- A connection that nobody reads from or writes to yet. -/
theorem honest_new {asked : List Command} (hreads : r.pendingReads = ∅)
    (hwrites : r.pendingWrites = ∅) : r.Honest id asked := by
  refine ⟨fun streamId p hp => ?_, fun streamId p hp => ?_⟩
  · rw [hreads] at hp
    exact nomatch (TreeMap.getElem?_emptyc (a := streamId)).symm.trans hp
  · rw [hwrites] at hp
    exact nomatch (TreeMap.getElem?_emptyc (a := streamId)).symm.trans hp

theorem EventLoop.Honest.put (h : s.Honest) (n : Nat) (hreads : r'.pendingReads = ∅)
    (hwrites : r'.pendingWrites = ∅) : ({ s with questions := n }.put id r').Honest :=
  ⟨h.waiters.put_new n (honest_new hreads hwrites), h.dropped⟩

theorem Taken.honest (h : s.Honest) {s₁ : EventLoop}
    (htaken : Taken suite command id { s with asked := s.asked ++ [command] } s₁) : s₁.Honest := by
  have hasked := h.asked command
  cases htaken with
  | @stepped r r' out lost hid hr hstep hlost =>
      have hcommand : command ∈ s.asked ++ [command] :=
        List.mem_append_right _ (List.mem_singleton_self _)
      have hr' : r'.Honest id (s.asked ++ [command]) :=
        (hasked.waiters id r hr).taken hid hcommand hstep
      refine ⟨EventLoop.Every.put hasked.waiters hr', fun response hresponse => ?_⟩
      rcases List.mem_append.1 hresponse with hold | hnew
      · exact hasked.dropped response hold
      · exact (h.waiters id r hr).displaced hid (hlost hnew)
  | answered hout => exact ⟨hasked.waiters, hasked.dropped⟩

theorem Handled.honest (h : s.Honest)
    (hhandled : Handled suite command { s with asked := s.asked ++ [command] } s') :
    s'.Honest := by
  have hasked := h.asked command
  cases hhandled with
  | taken htaken hrest => exact (htaken.honest h).touched hrest
  | opened hcommand hid hnone hroom hcore hrest =>
      exact (hasked.put _ rfl rfl).touched hrest

theorem Met.honest {bytes : Bytes} {peer : SocketAddr} (h : s.Honest)
    (hmet : Met suite hmac world bytes peer s s') : s'.Honest := by
  cases hmet with
  | refused hrefused =>
      cases hrefused with
      | ignored n hs' => exact hs' ▸ ⟨h.waiters, h.dropped⟩
      | retried henabled hlen hs' => exact hs' ▸ ⟨h.waiters, h.dropped⟩
  | delivered hlen hid hr hpeer hrest => exact h.touched hrest
  | admitted hlen hid hnone hadmitted hrest =>
      obtain ⟨hroom, hopens, hcore, hs₁⟩ := hadmitted
      rw [hs₁] at hrest
      exact (h.put _ rfl rfl).touched hrest

/-! ## Runs -/

/-- The account holds the requests of the commands taken, and who waits or was
dropped is known. -/
structure EventLoop.Balanced (s : EventLoop) : Prop where
  account : s.account = (s.asked.flatMap Command.responses : List Nat)
  honest : s.Honest

theorem EventLoop.Balanced.worked (h : s.Balanced) (hworked : Worked suite own s s') :
    s'.Balanced := by
  have hasked : s'.asked = s.asked := congrArg (·.2.1) hworked.given.1
  exact ⟨by rw [hworked.account, hasked, h.account], h.honest.worked hworked⟩

theorem Turned.balanced {event : Event} (h : s.Balanced)
    (hturn : Turned suite hmac world event s s') : s'.Balanced := by
  cases hturn with
  | rested htime => exact h.worked htime
  | @handled command s₁ hevent htime hhandled =>
      have h₁ := h.worked htime
      refine ⟨?_, hhandled.honest h₁.honest⟩
      have hasked : s'.asked = s₁.asked ++ [command] := congrArg (·.2.1) hhandled.given
      have haccount : ({ s₁ with asked := s₁.asked ++ [command] } : EventLoop).account =
          s₁.account := rfl
      rw [hhandled.account, hasked, haccount, h₁.account, List.flatMap_append,
        ← Multiset.coe_add, List.flatMap_singleton]
  | met hevent htime hmet =>
      have h₁ := h.worked htime
      have hasked := congrArg (·.2.1) hmet.given
      exact ⟨by rw [hmet.account, h₁.account]; exact congrArg _ (congrArg _ hasked.symm),
        hmet.honest h₁.honest⟩

variable (suite hmac world) in
/-- One step keeps the account, and nobody waits once the loop has stopped. -/
theorem step_balanced (event : Event)
    (h : s.Balanced ∧ (s.stopped = true → s.waiting = 0)) :
    (s.step suite hmac world event).Balanced ∧
      ((s.step suite hmac world event).stopped = true →
        (s.step suite hmac world event).waiting = 0) := by
  have hstepped : Stepped suite hmac world event s (s.step suite hmac world event) :=
    step_stepped event s
  generalize s.step suite hmac world event = s' at hstepped
  cases hstepped with
  | stays hstopped hs' => exact hs' ▸ h
  | goesOn hrunning hturn =>
      refine ⟨hturn.balanced h.1, fun hstopped => ?_⟩
      rw [hturn.given.2, hrunning] at hstopped
      cases hstopped
  | stops hrunning hturn hclose hwaiting hs' =>
      have h₂ := (hturn.balanced h.1).worked hclose
      exact hs' ▸ ⟨⟨h₂.account, ⟨h₂.honest.waiters, h₂.honest.dropped⟩⟩, fun _ => hwaiting⟩

variable (suite hmac world) in
/-- In every run of the loop the requests of the commands it took are, each as
often as it was brought, answered, waiting with a connection, or dropped for a later
read or write on the same stream; and none waits once the loop has stopped. -/
theorem answered_once (config : EndpointConfig) (events : List Event) :
    let s := EventLoop.run suite hmac world { config := config } events
    (s.answers.map Prod.fst : Multiset Nat) + s.dropped + s.waiting =
        (s.asked.flatMap Command.responses : List Nat) ∧
      (s.stopped = true → s.waiting = 0) ∧
      ∀ response ∈ s.dropped, Superseded s.asked response := by
  let I : EventLoop → Prop := fun s => s.Balanced ∧ (s.stopped = true → s.waiting = 0)
  have hstart : I { config := config } := ⟨⟨rfl, ⟨fun _ _ => nofun, nofun⟩⟩, fun _ => rfl⟩
  have hrun : I (EventLoop.run suite hmac world { config := config } events) :=
    run_keeps events hstart fun s event h => step_balanced suite hmac world event h
  exact ⟨hrun.1.account, hrun.2, hrun.1.honest.dropped⟩

end DartUdp.Endpoint
