import DartUdp.Proofs.EndpointSteps

/-!
# What a turn of the event loop can do

A turn lets time pass on every connection and then deals with one event. Each
command and each datagram has one place where it comes in: a connection that is
already there takes a step of its own, one is made, or there is an answer and no
more. What follows serves those who wait.

`step_stepped` is the result: what any event can have done. The theorems about the
runs of the loop are inductions over it.
-/

namespace DartUdp.Endpoint

open Std (TreeMap)
open DartUdp.Lib DartUdp.Udp DartUdp.Core

variable (suite : Suite) (hmac : (secret : Vector UInt8 32) → (message : Bytes) → Vector UInt8 32)
  (world : World)

/-! ## Steps on any connection -/

/-- The steps that let time pass. -/
def timeOwn : Op → Prop
  | .advanceTime _ => True
  | _ => False

abbrev Worked (own : Op → Prop) : EventLoop → EventLoop → Prop :=
  Relation.ReflTransGen fun s s' => ∃ id, Touch suite own id s s'

variable {suite world} {own own' : Op → Prop} {id : Nat} {s s' : EventLoop}

theorem Touched.worked (h : Touched suite own id s s') : Worked suite own s s' :=
  Relation.ReflTransGen.mono (fun _ _ htouch => ⟨id, htouch⟩) _ _ h

variable (suite own) in
theorem removeAll_worked (ids : List Nat) :
    Ends (removeAll world ids) s (fun _ s' => Worked suite own s s') fun _ _ => False := by
  induction ids generalizing s with
  | nil => exact .refl
  | cons id rest ih =>
      rw [removeAll, ends_bind]
      refine (removeRuntime_touched suite own world 0).mono (fun _ s₁ h => ?_) fun _ _ h => h
      exact ih.mono (fun _ s' hrest => (Touched.worked h).trans hrest) fun _ _ h => h

variable (suite own) in
theorem closeAll_worked :
    Ends (closeAll world) s (fun _ s' => Worked suite own s s') fun _ _ => False := by
  rw [closeAll, ends_bind, ends_get, ends_bind, ends_ask]
  refine (removeAll_worked suite own _).mono (fun _ s' h => ?_) fun _ _ h => h
  exact .head ⟨0, .asked s _⟩ h

/-- One connection after another is given up. -/
theorem removeRuntime_connections (errorCode : Nat) :
    Ends (removeRuntime world id errorCode) s
      (fun _ s' => ∀ id' : Nat, s'.connections[id']? = (s.connections.erase id)[id']?)
      fun _ _ => False := by
  rw [removeRuntime, ends_withConnection]
  refine ⟨fun hr id' => (getElem?_erase_of_none hr id').symm, fun r hr => ?_⟩
  rw [ends_bind, ends_modify, ends_bind]
  refine (drainReads_ends world errorCode r _).mono ?_ fun _ _ h => h
  rintro _ _ ⟨reads, n, -, rfl⟩
  rw [ends_bind]
  refine (drainWrites_ends world errorCode r _).mono ?_ fun _ _ h => h
  rintro _ _ ⟨writes, m, -, rfl⟩
  rw [ends_bind, ends_respondAll, ends_bind, ends_respondAll, ends_respondAll]
  exact fun _ => rfl

theorem removeAll_connections (ids : List Nat) :
    Ends (removeAll world ids) s
      (fun _ s' => ∀ (id : Nat) r, s'.connections[id]? = some r →
        s.connections[id]? = some r ∧ id ∉ ids)
      fun _ _ => False := by
  induction ids generalizing s with
  | nil => exact fun id r hr => ⟨hr, List.not_mem_nil⟩
  | cons id rest ih =>
      rw [removeAll, ends_bind]
      refine (removeRuntime_connections 0).mono (fun _ s₁ hs₁ => ?_) fun _ _ h => h
      refine ih.mono (fun _ s' hs' id' r hr => ?_) fun _ _ h => h
      obtain ⟨hr₁, hrest⟩ := hs' id' r hr
      rw [hs₁, TreeMap.getElem?_erase] at hr₁
      split at hr₁
      · cases hr₁
      · next hne =>
          refine ⟨hr₁, fun hmem => (List.mem_cons.1 hmem).elim (fun heq => hne ?_) hrest⟩
          rw [heq]
          exact Std.ReflCmp.compare_self

/-- When all is closed, nobody waits. -/
theorem closeAll_waiting :
    Ends (closeAll world) s (fun _ s' => s'.waiting = 0) fun _ _ => False := by
  rw [closeAll, ends_bind, ends_get, ends_bind, ends_ask]
  refine (removeAll_connections _).mono (fun _ s' hs' => ?_) fun _ _ h => h
  have hnone : ∀ id : Nat, s'.connections[id]? = (∅ : TreeMap Nat Runtime)[id]? := fun id => by
    rw [TreeMap.getElem?_emptyc]
    refine Option.eq_none_iff_forall_ne_some.2 fun r hr => ?_
    obtain ⟨hr₁, hkeys⟩ := hs' id r hr
    refine hkeys ((world.order_perm _ _).mem_iff.2 ?_)
    exact TreeMap.mem_keys.2 (TreeMap.mem_iff_isSome_getElem?.2 (by rw [hr₁]; rfl))
  rw [EventLoop.waiting, total_congr _ hnone, total_empty]

/-! ## Time -/

theorem advanceEach_worked (now : Nat) (ids : List Nat) :
    Within (Worked suite timeOwn) (advanceEach suite world now ids) s := by
  induction ids generalizing s with
  | nil => exact .refl
  | cons id rest ih =>
      rw [advanceEach]
      refine .bind ?_ fun _ _ => ih
      rw [Within, ends_withConnection]
      refine ⟨fun _ => .refl, fun r hr => ?_⟩
      cases hcall : call (Core.advanceTime (now - r.lastAdvancedAt)) r.core with
      | mk result core =>
      have hcore : core = final suite r.core [.advanceTime (now - r.lastAdvancedAt)] := by
        rw [final_one, call_eq hcall]
        exact (after_bind_pure ..).symm
      have hops : ∀ op ∈ [Op.advanceTime (now - r.lastAdvancedAt)], timeOwn op := fun op hop => by
        rw [List.mem_singleton.1 hop]
        trivial
      have hstep : r.Step suite timeOwn none [] []
          { r with core := core, lastAdvancedAt := now } :=
        .of_ops _ rfl rfl (fun op hop => .inl (hops op hop)) hcore rfl rfl rfl rfl
      have hput := (Touch.quiet hr hstep).touched.worked
      dsimp only
      rw [ends_bind, ends_putRuntime]
      cases result with
      | error error =>
          exact (removeRuntime_touched suite timeOwn world 4).mono
            (fun _ _ h => hput.trans (Touched.worked h)) fun _ _ h => h.elim
      | ok =>
          have hout : ∀ s', Touched suite timeOwn id
              (s.put id { r with core := core, lastAdvancedAt := now }) s' →
                Worked suite timeOwn s s' := fun s' h => hput.trans (Touched.worked h)
          exact Ends.mono (processOutputs_touched world) (fun _ s' h => hout s' h)
            fun _ s' h => hout s' h

theorem advanceTime_worked :
    Within (Worked suite timeOwn) (advanceTime suite world) s := by
  rw [Within, advanceTime, ends_bind, ends_ask, ends_bind, ends_get, ends_bind, ends_ask]
  have hask : ∀ s', Worked suite timeOwn
      { s with questions := s.questions + 1 + 1 } s' → Worked suite timeOwn s s' :=
    fun s' h => .head ⟨0, .asked s _⟩ h
  exact Ends.mono (advanceEach_worked _ _) (fun _ s' h => hask s' h) fun _ s' h => hask s' h

/-! ## Commands -/

/-- The connection a command is for. -/
def Command.connection : Command → Option Nat
  | .connect _ _ => none
  | .openStream id _ => some id
  | .acceptStream id _ => some id
  | .read id _ _ _ => some id
  | .write id _ _ _ _ => some id
  | .flush id _ => some id
  | .close id _ _ _ => some id
  | .shutdown => none

/-- The waiter whose place a read or a write takes. -/
def Runtime.displaced (r : Runtime) : Command → List Nat
  | .read _ streamId _ _ => (r.pendingReads[streamId]?.map PendingRead.response).toList
  | .write _ streamId _ _ _ => (r.pendingWrites[streamId]?.map PendingWrite.response).toList
  | _ => []

/-- A connection as `handle_connect` makes it. -/
def Runtime.ofConnect (core : Connection) (path : PathBinding) (now response : Nat) : Runtime where
  core := core
  path := path
  isServer := false
  lastAdvancedAt := now
  connectWaiter := some response
  accepted := true

/-- A connection as `handle_datagram` makes it. -/
def Runtime.ofDatagram (core : Connection) (peer : SocketAddr) (now : Nat) : Runtime where
  core := core
  path := ⟨peer⟩
  isServer := true
  lastAdvancedAt := now
  accepted := false

variable (suite) in
/-- How a command comes in: its connection takes a step, or there is only an
answer. -/
inductive Taken (command : Command) (id : Nat) (s : EventLoop) : EventLoop → Prop
  | stepped {r r' : Runtime} {out : List (Nat × Response)} {lost : List Nat}
      (hid : command.connection = some id) (h : s.connections[id]? = some r)
      (hstep : r.Step suite noneOwn (some command) out lost r')
      (hlost : lost ⊆ r.displaced command) : Taken command id s (s.stepped id r' out lost)
  | answered {n : Nat} {out : List (Nat × Response)} (hout : answered out = command.responses) :
      Taken command id s { s with answers := s.answers ++ out, questions := n }

variable (suite) in
/-- What a command does. -/
inductive Handled (command : Command) (s s' : EventLoop) : Prop
  | taken {id : Nat} {s₁ : EventLoop} (htaken : Taken suite command id s s₁)
      (hrest : Touched suite noneOwn id s₁ s')
  | opened {path : PathBinding} {response id n now : Nat} {core : Connection} {entropy : Entropy}
      (hcommand : command = .connect path response) (hid : id ≠ 0)
      (hnone : s.connections[id]? = none) (hroom : s.connections.size < s.config.maxConnections)
      (hcore : Connection.newClient suite id s.config.connection entropy = .ok core)
      (hrest : Touched suite noneOwn id
        ({ s with questions := n }.put id (.ofConnect core path now response)) s')

theorem firstFree_spec {connections : TreeMap Nat Runtime} {draws : List UInt64}
    (h : firstFree connections draws = .ok id) : id ≠ 0 ∧ connections[id]? = none := by
  induction draws with
  | nil => cases h
  | cons raw rest ih =>
      rw [firstFree] at h
      split at h
      · exact ih h
      · next hraw =>
          split at h
          · exact ih h
          · next hfree =>
              cases h
              refine ⟨fun hzero => hraw (UInt64.toNat_inj.1 hzero), ?_⟩
              rw [TreeMap.contains_eq_isSome_getElem?] at hfree
              simpa using hfree

theorem handleConnect_handled (path : PathBinding) (response : Nat) :
    Within (Handled suite (.connect path response))
      (handleConnect suite world path response) s := by
  rw [Within, handleConnect, ends_bind, ends_get, ends_ite]
  refine ⟨fun _ => ?_, fun hroom => ?_⟩
  · rw [ends_respond]
    exact @Handled.taken _ _ _ _ 0 _ (.answered (answered_singleton ..)) .refl
  · rw [ends_bind, ends_ask]
    cases hfree : firstFree s.connections (world.draws s.questions) with
    | error error =>
        dsimp only
        rw [ends_respond]
        exact @Handled.taken _ _ _ _ 0 _ (.answered (answered_singleton ..)) .refl
    | ok id =>
        dsimp only
        rw [ends_bind, ends_ask]
        obtain ⟨hid, hnone⟩ := firstFree_spec hfree
        cases hcore : Connection.newClient suite id s.config.connection
            (world.entropy (s.questions + 1)) with
        | error error =>
            dsimp only
            rw [ends_respond]
            exact @Handled.taken _ _ _ _ 0 _ (.answered (answered_singleton ..)) .refl
        | ok core =>
            dsimp only
            rw [ends_bind, ends_ask, ends_bind, ends_putRuntime]
            exact Ends.mono (processOutputs_touched world)
              (fun _ _ h => .opened rfl hid hnone (not_le.1 hroom) hcore h)
              fun _ _ h => .opened rfl hid hnone (not_le.1 hroom) hcore h

/-- A command comes in, and the outputs are worked off. -/
theorem handled_of {command : Command} {m : LoopM Unit}
    (hm : Ends m s (fun _ s' => Taken suite command id s s') fun _ _ => False) :
    Within (Handled suite command) (m >>= fun _ => processOutputs suite world id) s := by
  rw [Within, ends_bind]
  refine hm.mono (fun _ s₁ htaken => ?_) fun _ _ h => h.elim
  exact Ends.mono (processOutputs_touched world) (fun _ _ h => .taken htaken h)
    fun _ _ h => .taken htaken h

variable (suite) in
/-- A command that a method of the core answers. -/
theorem Taken.call (command : Command) (op : Op) {α : Type} {m : ConnM α} {r : Runtime}
    {response : Nat} (result : Response) (hid : command.connection = some id)
    (hr : s.connections[id]? = some r) (hop : command.asks op)
    (hresponses : command.responses = [response])
    (hm : after (perform suite op) r.core = after m r.core) :
    Taken suite command id s
      { s.put id { r with core := (Endpoint.call m r.core).2 } with
        answers := s.answers ++ [(response, result)] } := by
  rw [EventLoop.stepped_out]
  have hops : ∀ op' ∈ [op], noneOwn op' ∨ (∃ c, some command = some c ∧ c.asks op') ∨
      r.Serves op' :=
    fun op' hop' => .inr (.inl ⟨command, rfl, List.mem_singleton.1 hop' ▸ hop⟩)
  have hout : Endpoint.answered [(response, result)] = requests (some command) := by
    rw [requests, Option.elim_some, hresponses]
    rfl
  refine .stepped hid hr (.of_ops _ rfl rfl hops ?_ rfl rfl rfl hout) (List.nil_subset _)
  rw [final_one, hm, call_snd]

theorem EventLoop.stepped_quiet (s : EventLoop) (id : Nat) (r' : Runtime) :
    s.put id r' = s.stepped id r' [] [] := by
  rw [← EventLoop.stepped_out, List.append_nil]
  rfl

theorem handleCommand_handled (command : Command) (hcommand : command ≠ .shutdown) :
    Within (Handled suite command) (handleCommand suite world command) s := by
  cases command with
  | connect path response => exact handleConnect_handled path response
  | openStream id response =>
      refine handled_of (ends_withConnection.2 ⟨fun _ => ?_, fun r hr => ?_⟩)
      · exact .answered (answered_singleton ..)
      · exact .call suite (.openStream id response) .openStream _ rfl hr rfl rfl (after_map ..)
  | acceptStream id response =>
      rw [Within, handleCommand, ends_withConnection]
      refine ⟨fun _ => @Handled.taken _ _ _ _ id _ (.answered (answered_singleton ..)) .refl,
        fun r hr => ?_⟩
      split
      · next streamId rest hincoming =>
          have hstep : r.Step suite noneOwn (some (.acceptStream id response))
              [(response, .stream (.ok streamId))] [] { r with incomingStreams := rest } := by
            refine .of_core rfl rfl rfl (fun _ _ hp => hp) (fun _ _ hp => hp) ?_
            simp only [answered_singleton, requests, Option.elim_some,
              Command.responses, Multiset.coe_nil, Multiset.coe_singleton, Runtime.waiting]
            abel
          have htaken := Taken.stepped rfl hr hstep (List.nil_subset _)
          rw [← EventLoop.stepped_out] at htaken
          exact .taken htaken .refl
      · have hstep : r.Step suite noneOwn (some (.acceptStream id response)) [] []
            { r with pendingAccepts := r.pendingAccepts ++ [response] } := by
          refine .of_core rfl rfl rfl (fun _ _ hp => hp) (fun _ _ hp => hp) ?_
          simp only [answered_nil, requests, Option.elim_some, Command.responses, Multiset.coe_nil,
            Runtime.waiting,
            ← Multiset.coe_add]
          abel
        have htaken := Taken.stepped rfl hr hstep (List.nil_subset _)
        rw [← EventLoop.stepped_quiet] at htaken
        exact .taken htaken .refl
  | read id streamId maxLen response =>
      refine handled_of (ends_withConnection.2 ⟨fun _ => ?_, fun r hr => ?_⟩)
      · exact .answered (answered_singleton ..)
      · refine (answerRead_ends suite noneOwn streamId maxLen response).mono ?_ fun _ _ h => h
        rintro _ _ ⟨r', out, lost, rfl, hstep, hlost⟩
        exact .stepped rfl hr hstep hlost
  | write id streamId data fin response =>
      refine handled_of (ends_withConnection.2 ⟨fun _ => ?_, fun r hr => ?_⟩)
      · exact .answered (answered_singleton ..)
      · rw [ends_bind]
        refine (tryWrite_ends suite noneOwn streamId data fin response).mono ?_ fun _ _ h => h
        rintro _ _ ⟨r', out, lost, rfl, hstep, hlost⟩
        exact .stepped rfl hr hstep hlost
  | flush id response =>
      refine handled_of (ends_withConnection.2 ⟨fun _ => ?_, fun r hr => ends_ite.2 ⟨fun _ => ?_,
        fun _ => ?_⟩⟩)
      · exact .answered (answered_singleton ..)
      · exact .answered (answered_singleton ..)
      · rw [ends_putRuntime, EventLoop.stepped_quiet]
        refine .stepped rfl hr (.of_core rfl rfl rfl (fun _ _ hp => hp) (fun _ _ hp => hp) ?_)
          (List.nil_subset _)
        simp only [answered_nil, requests, Option.elim_some, Command.responses, Multiset.coe_nil,
            Runtime.waiting,
          ← Multiset.coe_add]
        abel
  | close id errorCode reason response =>
      refine handled_of (ends_withConnection.2 ⟨fun _ => ?_, fun r hr => ?_⟩)
      · exact .answered (answered_singleton ..)
      · exact .call suite (.close id errorCode reason response) (.close errorCode reason) _ rfl hr
          rfl rfl (after_bind_pure ..)
  | shutdown => exact absurd rfl hcommand

/-! ## Datagrams -/

/-- What a datagram has the core of its connection do. -/
def datagramOwn (bytes : Bytes) : Op → Prop
  | .onDatagramBytes received => received = bytes
  | .close errorCode reason => errorCode = 4 ∧ reason = ascii "invalid datagram"
  | _ => False

/-- The cookie of a hello was made here, for this address and this connection. -/
def Vouched (config : EndpointConfig) (peer : SocketAddr) (id : Nat) (hello : ClientHello)
    (now : SystemTime) : Prop :=
  ∃ secret, config.retry.cookieSecret = some secret ∧
    validateCookie hmac secret hello.cookie now
      ⟨peer, UInt64.ofNat id, nonceOf hello, config.retry.cookieTtl, config.retry.clockSkew⟩ = true

/-- A datagram that may open a connection. -/
structure Opens (config : EndpointConfig) (bytes : Bytes) (peer : SocketAddr) (id : Nat)
    (hello : ClientHello) (now : SystemTime) : Prop where
  packet : ∃ packet, decodePacket bytes config.connection.maxDatagramSize = .ok packet ∧
    packet.packetType = .initial ∧ packet.frames = [.clientHello hello]
  vouched : config.retry.enabled = true → Vouched hmac config peer id hello now

/-- What there is of a datagram that neither finds a connection nor opens one. -/
inductive Refused (bytes : Bytes) (peer : SocketAddr) (s s' : EventLoop) : Prop
  | ignored (n : Nat) (h : s' = { s with questions := n })
  | retried {n : Nat} {reply : Bytes} (henabled : s.config.retry.enabled = true)
      (hlen : reply.length ≤ bytes.length)
      (h : s' = { s with sent := s.sent ++ [(peer, reply)], questions := n })

variable (suite world) in
/-- A connection is made for a datagram. -/
inductive Admitted (bytes : Bytes) (peer : SocketAddr) (id : Nat) (s s' : EventLoop) : Prop
  | intro {n now t : Nat} {hello : ClientHello} {core : Connection} {entropy : Entropy}
      (hroom : s.connections.size < s.config.maxConnections)
      (hopens : Opens hmac s.config bytes peer id hello (world.systemTime t))
      (hcore : Connection.newServer suite id s.config.connection entropy = .ok core)
      (h : s' = { s with questions := n }.put id (.ofDatagram core peer now))

variable (suite world) in
/-- What a datagram does. -/
inductive Met (bytes : Bytes) (peer : SocketAddr) (s s' : EventLoop) : Prop
  | refused (h : Refused bytes peer s s')
  | delivered {id : Nat} {r : Runtime}
      (hlen : bytes.length ≤ s.config.connection.maxDatagramSize)
      (hid : peekConnectionId bytes s.config.connection.maxDatagramSize = .ok id)
      (h : s.connections[id]? = some r) (hpeer : r.path.peer = peer)
      (hrest : Touched suite (datagramOwn bytes) id s s')
  | admitted {id : Nat} {s₁ : EventLoop}
      (hlen : bytes.length ≤ s.config.connection.maxDatagramSize)
      (hid : peekConnectionId bytes s.config.connection.maxDatagramSize = .ok id)
      (hnone : s.connections[id]? = none) (h : Admitted suite hmac world bytes peer id s s₁)
      (hrest : Touched suite (datagramOwn bytes) id s₁ s')

/-- The core is handed the datagram, and may be closed for it. -/
theorem received_final (bytes : Bytes) (c : Connection) :
    ∃ ops, (∀ op ∈ ops, datagramOwn bytes op) ∧ received suite bytes c = final suite c ops := by
  have hafter : after (perform suite (.onDatagramBytes bytes)) c =
      after (onDatagramBytes suite bytes) c := after_bind_pure ..
  have hone : ∃ ops, (∀ op ∈ ops, datagramOwn bytes op) ∧
      after (onDatagramBytes suite bytes) c = final suite c ops :=
    ⟨[.onDatagramBytes bytes], fun op hop => by rw [List.mem_singleton.1 hop]; rfl, hafter.symm⟩
  unfold received
  cases hcall : call (onDatagramBytes suite bytes) c with
  | mk result core =>
  have hcore := call_eq hcall
  cases result with
  | ok => exact hcore ▸ hone
  | error error =>
      dsimp only
      split
      · exact hcore ▸ hone
      · refine ⟨[.onDatagramBytes bytes, .close 4 (ascii "invalid datagram")], fun op hop => ?_, ?_⟩
        · rcases List.mem_cons.1 hop with rfl | hop
          · rfl
          · rw [List.mem_singleton.1 hop]
            exact ⟨rfl, rfl⟩
        · rw [final_cons, final_one, hafter, hcore]
          exact (after_bind_pure ..).symm

theorem deliver_touched (bytes : Bytes) :
    Within (Touched suite (datagramOwn bytes) id) (deliver suite world bytes id) s := by
  refine .bind ?_ fun _ _ => processOutputs_touched world
  rw [Within, ends_withConnection]
  refine ⟨fun _ => .refl, fun r hr => ?_⟩
  rw [ends_putRuntime]
  obtain ⟨ops, hops, hcore⟩ := received_final bytes r.core
  refine (Touch.quiet hr ?_).touched
  exact .of_ops ops rfl rfl (fun op hop => .inl (hops op hop)) hcore rfl rfl rfl rfl

variable {hmac} in
theorem cookieHolds_ends (peer : SocketAddr) (hello : ClientHello) :
    Ends (cookieHolds hmac world peer id hello) s
      (fun holds s' => ∃ n t, s' = { s with questions := n } ∧
        (s.config.retry.enabled = true → holds = true →
          Vouched hmac s.config peer id hello (world.systemTime t)) ∧
        (holds = false → s.config.retry.enabled = true))
      fun _ _ => False := by
  rw [cookieHolds, ends_bind, ends_get, ends_ite]
  refine ⟨fun henabled => ?_, fun hdisabled => ?_⟩
  · rw [cookieIsValid, ends_bind, ends_get]
    dsimp only
    split
    · exact ⟨s.questions, 0, rfl, fun _ => nofun, fun _ => henabled⟩
    · next secret hsecret =>
        rw [ends_bind, ends_ask]
        exact ⟨_, s.questions, rfl, fun _ hholds => ⟨secret, hsecret, hholds⟩, fun _ => henabled⟩
  · exact ⟨s.questions, 0, rfl, fun henabled => absurd henabled hdisabled, nofun⟩

variable {hmac} in
theorem sendRetry_ends (peer : SocketAddr) (hello : ClientHello) (bytes : Bytes)
    (henabled : s.config.retry.enabled = true) :
    Within (Refused bytes peer) (sendRetry hmac world peer id hello bytes.length) s := by
  rw [Within, sendRetry, ends_bind, ends_get]
  dsimp only
  split
  · exact .ignored s.questions rfl
  · next secret hsecret =>
      rw [ends_bind, ends_ask, ends_bind, ends_ofExcept]
      refine ⟨fun cookie _ => ?_, fun _ _ => .ignored _ rfl⟩
      rw [ends_bind, ends_ofExcept]
      refine ⟨fun reply _ => ?_, fun _ _ => .ignored _ rfl⟩
      rw [ends_ite]
      refine ⟨fun _ => .ignored _ rfl, fun hlen => ?_⟩
      refine (sendTo_ends world reply peer).mono ?_ ?_
      · rintro _ _ rfl
        exact .retried henabled (not_lt.1 hlen) rfl
      · rintro _ _ rfl
        exact .retried henabled (not_lt.1 hlen) rfl

/-- A question more or less makes no difference to what a datagram does. -/
theorem Refused.ask {bytes : Bytes} {peer : SocketAddr} {n : Nat}
    (h : Refused bytes peer { s with questions := n } s') : Refused bytes peer s s' := by
  cases h with
  | ignored m h => exact .ignored m h
  | retried henabled hlen h => exact .retried henabled hlen h

variable {hmac} in
theorem openServer_ends {n t : Nat} {bytes : Bytes} {peer : SocketAddr} {hello : ClientHello}
    (hopens : Opens hmac s.config bytes peer id hello (world.systemTime t)) :
    Ends (openServer suite world peer id) { s with questions := n }
      (fun admitted s' => (admitted = false → Refused bytes peer s s') ∧
        (admitted = true → Admitted suite hmac world bytes peer id s s'))
      fun _ _ => False := by
  rw [openServer, ends_bind, ends_get, ends_ite]
  refine ⟨fun _ => ⟨fun _ => .ignored n rfl, nofun⟩, fun hroom => ?_⟩
  rw [ends_bind, ends_ask]
  cases hcore : Connection.newServer suite id s.config.connection (world.entropy n) with
  | error error => exact ⟨fun _ => .ignored (n + 1) rfl, nofun⟩
  | ok core =>
      dsimp only
      rw [ends_bind, ends_ask, ends_bind, ends_putRuntime]
      exact ⟨nofun, fun _ => ⟨not_le.1 hroom, hopens, hcore, rfl⟩⟩

variable {hmac} in
theorem handleUnknown_ends (bytes : Bytes) (peer : SocketAddr) :
    Ends (handleUnknown suite hmac world bytes peer id) s
      (fun admitted s' => (admitted = false → Refused bytes peer s s') ∧
        (admitted = true → Admitted suite hmac world bytes peer id s s'))
      fun _ s' => Refused bytes peer s s' := by
  have hno : (false = false → Refused bytes peer s s) ∧
      (false = true → Admitted suite hmac world bytes peer id s s) :=
    ⟨fun _ => .ignored s.questions rfl, nofun⟩
  rw [handleUnknown, ends_bind, ends_get]
  split
  · exact hno
  · next packet hpacket =>
      rw [ends_ite]
      refine ⟨fun _ => hno, fun htype => ?_⟩
      split
      · next hello hframes =>
          rw [ends_bind]
          refine (cookieHolds_ends peer hello).mono ?_ fun _ _ h => h.elim
          rintro holds _ ⟨n, t, rfl, hvouched, henabled⟩
          rw [ends_ite]
          refine ⟨fun hholds => ?_, fun hfails => ?_⟩
          · have hopens : Opens hmac s.config bytes peer id hello (world.systemTime t) :=
              ⟨⟨packet, hpacket, not_not.1 htype, hframes⟩, fun h => hvouched h hholds⟩
            exact (openServer_ends hopens).mono (fun _ _ h => h) fun _ _ h => h.elim
          · rw [ends_bind]
            have hretry := henabled (by simpa using hfails)
            exact Ends.mono (sendRetry_ends peer hello bytes hretry)
              (fun _ _ h => ⟨fun _ => h.ask, nofun⟩) fun _ _ h => h.ask
      · exact hno

variable {hmac} in
theorem handleDatagram_met (bytes : Bytes) (peer : SocketAddr) :
    Within (Met suite hmac world bytes peer) (handleDatagram suite hmac world bytes peer) s := by
  have hno : Met suite hmac world bytes peer s s := .refused (.ignored s.questions rfl)
  rw [Within, handleDatagram, ends_bind, ends_get, ends_ite]
  refine ⟨fun _ => hno, fun hlen => ?_⟩
  have hlen := not_lt.1 hlen
  split
  · exact hno
  · next id hid =>
      split
      · next r hr =>
          rw [ends_ite]
          refine ⟨fun hpeer => ?_, fun _ => hno⟩
          exact Ends.mono (deliver_touched bytes) (fun _ _ h => .delivered hlen hid hr hpeer h)
            fun _ _ h => .delivered hlen hid hr hpeer h
      · next hnone =>
          rw [ends_bind]
          refine (handleUnknown_ends bytes peer).mono (fun admitted s₁ hjudged => ?_)
            fun _ _ h => .refused h
          rw [ends_ite]
          refine ⟨fun hyes => ?_, fun hrefused => ?_⟩
          · have hadmitted := hjudged.2 hyes
            exact Ends.mono (deliver_touched bytes)
              (fun _ _ h => .admitted hlen hid hnone hadmitted h)
              fun _ _ h => .admitted hlen hid hnone hadmitted h
          · exact .refused (hjudged.1 (by simpa using hrefused))

/-! ## Turns -/

variable (suite world) in
/-- What a turn does: time passes, and then an event may be dealt with. -/
inductive Turned (event : Event) (s s' : EventLoop) : Prop
  | rested (h : Worked suite timeOwn s s')
  | handled {command : Command} {s₁ : EventLoop} (hevent : event = .command command)
      (htime : Worked suite timeOwn s s₁)
      (h : Handled suite command { s₁ with asked := s₁.asked ++ [command] } s')
  | met {datagram : Bytes} {peer : SocketAddr} {s₁ : EventLoop}
      (hevent : event = .received datagram peer) (htime : Worked suite timeOwn s s₁)
      (h : Met suite hmac world
        (datagram.take (s₁.config.connection.maxDatagramSize + 1)) peer s₁ s')

variable {hmac} in
theorem turn_turned (event : Event) :
    Within (Turned suite hmac world event) (turn suite hmac world event) s := by
  rw [Within, turn.eq_def, ends_bind]
  refine Ends.mono advanceTime_worked (fun _ s₁ htime => ?_) fun _ _ htime => .rested htime
  rw [ends_bind, ends_get, ends_bind, ends_ofExcept]
  refine ⟨fun _ _ => ?_, fun _ _ => .rested htime⟩
  cases event with
  | received datagram peer =>
      dsimp only
      rw [ends_bind, ends_get, ends_bind]
      exact Ends.mono (handleDatagram_met _ peer) (fun _ _ h => .met rfl htime h)
        fun _ _ h => .met rfl htime h
  | command command =>
      by_cases hcommand : command = .shutdown
      · subst hcommand
        exact .rested htime
      · have hturn : Ends (do
            modify fun s => { s with asked := s.asked ++ [command] }
            handleCommand suite world command
            return true) s₁ (fun _ s' => Turned suite hmac world (.command command) s s')
            fun _ s' => Turned suite hmac world (.command command) s s' := by
          rw [ends_bind, ends_modify, ends_bind]
          exact Ends.mono (handleCommand_handled command hcommand)
            (fun _ _ h => .handled rfl htime h) fun _ _ h => .handled rfl htime h
        cases command with
        | shutdown => exact absurd rfl hcommand
        | _ => exact hturn
  | receiveFailed => exact .rested htime
  | commandsClosed => exact .rested htime
  | slept => exact .rested htime

variable (suite world) in
/-- What a step of the loop does: a turn, after which all may be closed. -/
inductive Stepped (event : Event) (s s' : EventLoop) : Prop
  | stays (hstopped : s.stopped = true) (h : s' = s)
  | goesOn (hrunning : s.stopped = false) (hturn : Turned suite hmac world event s s')
  | stops {s₁ s₂ : EventLoop} (hrunning : s.stopped = false)
      (hturn : Turned suite hmac world event s s₁) (hclose : Worked suite noneOwn s₁ s₂)
      (hwaiting : s₂.waiting = 0) (h : s' = { s₂ with stopped := true })

variable {hmac} in
theorem step_stepped (event : Event) (s : EventLoop) :
    Stepped suite hmac world event s (s.step suite hmac world event) := by
  unfold EventLoop.step
  split
  · next hstopped => exact .stays hstopped rfl
  · next hrunning =>
      have hrunning : s.stopped = false := by simpa using hrunning
      have hturn : Within (Turned suite hmac world event) (turn suite hmac world event) s :=
        turn_turned event
      have hstops : ∀ s₁, Turned suite hmac world event s s₁ →
          Stepped suite hmac world event s
            { after (closeAll world) s₁ with stopped := true } := fun s₁ hs₁ =>
        have hclosed : Ends (closeAll world) s₁
            (fun _ s₂ => Worked suite noneOwn s₁ s₂ ∧ s₂.waiting = 0)
            fun _ s₂ => Worked suite noneOwn s₁ s₂ ∧ s₂.waiting = 0 :=
          ((closeAll_worked suite noneOwn).and closeAll_waiting).mono (fun _ _ h => h)
            fun _ _ h => h.1.elim
        .stops hrunning hs₁ hclosed.after.1 hclosed.after.2 rfl
      split
      · next s₁ hrun => exact .goesOn hrunning (hturn.ok hrun)
      · next s₁ hrun => exact hstops s₁ (hturn.ok hrun)
      · next error s₁ hrun => exact hstops s₁ (hturn.error hrun)

/-! ## What the steps leave alone -/

/-- What only the turns change. -/
def EventLoop.given (s : EventLoop) : EndpointConfig × List Command × Bool :=
  (s.config, s.asked, s.stopped)

theorem Touch.given (h : Touch suite own id s s') :
    s'.given = s.given ∧ s'.dropped = s.dropped := by
  cases h with
  | asked n => exact ⟨rfl, rfl⟩
  | changed h hstep => exact ⟨rfl, rfl⟩
  | sent h hencode => exact ⟨rfl, rfl⟩
  | handed => exact ⟨rfl, rfl⟩
  | removed h hout => exact ⟨rfl, rfl⟩

theorem Worked.given (h : Worked suite own s s') :
    s'.given = s.given ∧ s'.dropped = s.dropped := by
  induction h with
  | refl => exact ⟨rfl, rfl⟩
  | tail _ htouch ih =>
      obtain ⟨id, htouch⟩ := htouch
      exact ⟨htouch.given.1.trans ih.1, htouch.given.2.trans ih.2⟩

theorem Handled.given {command : Command} (h : Handled suite command s s') :
    s'.given = s.given := by
  cases h with
  | taken htaken hrest =>
      rw [hrest.worked.given.1]
      cases htaken with
      | stepped hid h hstep hlost => rfl
      | answered hout => rfl
  | opened hcommand hid hnone hroom hcore hrest => exact hrest.worked.given.1

variable {hmac} in
theorem Met.given {bytes : Bytes} {peer : SocketAddr} (h : Met suite hmac world bytes peer s s') :
    s'.given = s.given := by
  cases h with
  | refused h =>
      cases h with
      | ignored n h => exact h ▸ rfl
      | retried henabled hlen h => exact h ▸ rfl
  | delivered hlen hid h hpeer hrest => exact hrest.worked.given.1
  | admitted hlen hid hnone h hrest =>
      obtain ⟨hroom, hopens, hcore, hs₁⟩ := h
      exact hrest.worked.given.1.trans (hs₁ ▸ rfl)

variable {hmac} in
theorem Turned.given {event : Event} (h : Turned suite hmac world event s s') :
    s'.config = s.config ∧ s'.stopped = s.stopped := by
  have htime : ∀ {s₁ : EventLoop}, Worked suite timeOwn s s₁ →
      s₁.config = s.config ∧ s₁.stopped = s.stopped :=
    fun h => ⟨congrArg (·.1) h.given.1, congrArg (·.2.2) h.given.1⟩
  cases h with
  | rested h => exact htime h
  | handled hevent h hhandled =>
      exact ⟨(congrArg (·.1) hhandled.given).trans (htime h).1,
        (congrArg (·.2.2) hhandled.given).trans (htime h).2⟩
  | met hevent h hmet =>
      exact ⟨(congrArg (·.1) hmet.given).trans (htime h).1,
        (congrArg (·.2.2) hmet.given).trans (htime h).2⟩

/-! ## What every connection keeps -/

/-- What holds of every connection there is. -/
def EventLoop.Every (I : Nat → Runtime → Prop) (s : EventLoop) : Prop :=
  ∀ (id : Nat) r, s.connections[id]? = some r → I id r

variable {I : Nat → Runtime → Prop} {r r' : Runtime}

theorem EventLoop.Every.put (h : s.Every I) (hr' : I id r') : (s.put id r').Every I := by
  intro id' r₁ hr₁
  rw [EventLoop.put, TreeMap.getElem?_insert] at hr₁
  split at hr₁
  · next heq =>
      cases hr₁
      exact Std.compare_eq_iff_eq.1 heq ▸ hr'
  · exact h id' r₁ hr₁

/-- The same after questions to the world. -/
theorem EventLoop.Every.put_new (h : s.Every I) (n : Nat) (hr' : I id r') :
    ({ s with questions := n }.put id r').Every I := by
  have hsame : EventLoop.Every I { s with questions := n } := h
  exact hsame.put hr'

theorem Touch.every (htouch : Touch suite own id s s') (h : s.Every I)
    (hstep : ∀ r r' out, r.Step suite own none out [] r' → I id r → I id r') : s'.Every I := by
  cases htouch with
  | asked n => exact h
  | changed hr hchange => exact h.put (hstep _ _ _ hchange (h id _ hr))
  | sent hr hencode => exact h
  | handed => exact h
  | removed hr hout => exact fun id' r hr => h id' r (erase_subset hr)

theorem Worked.every (hworked : Worked suite own s s') (h : s.Every I)
    (hstep : ∀ id r r' out, r.Step suite own none out [] r' → I id r → I id r') : s'.Every I := by
  induction hworked with
  | refl => exact h
  | tail _ htouch ih =>
      obtain ⟨id, htouch⟩ := htouch
      exact htouch.every ih (hstep id)

theorem Touched.every (htouched : Touched suite own id s s') (h : s.Every I)
    (hstep : ∀ r r' out, r.Step suite own none out [] r' → I id r → I id r') : s'.Every I := by
  induction htouched with
  | refl => exact h
  | tail _ htouch ih => exact htouch.every ih hstep

end DartUdp.Endpoint
