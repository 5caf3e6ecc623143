import DartUdp.Endpoint.EventLoop
import DartUdp.Lib.Totals

/-!
# What the event loop can do to a connection

Between two turns of its own a connection is worked on in small steps: a method of
the core runs, a waiter is answered or put back, a datagram goes out, the
connection is given up. `Touch` lists these steps once, with the account of the
requests each of them keeps, and every function of the loop that works on one
connection is a sequence of them, however it ends.

`processOutputs_touched` is the last of these lemmas. An invariant of the loop is
shown for the steps, and no proof about it looks into a function again.
-/

namespace DartUdp.Endpoint

open Std (TreeMap)
open DartUdp.Lib DartUdp.Udp DartUdp.Core

/-! ## Rules for the programs of the loop -/

section Rules

variable {α : Type} {s : EventLoop} {E : EndpointError → EventLoop → Prop}

@[simp] theorem ends_ask {f : Nat → α} {Q : α → EventLoop → Prop} :
    Ends (ask f) s Q E ↔ Q (f s.questions) { s with questions := s.questions + 1 } := Iff.rfl

@[simp] theorem ends_respond {response : Nat} {result : Response} {Q : Unit → EventLoop → Prop} :
    Ends (respond response result) s Q E ↔
      Q () { s with answers := s.answers ++ [(response, result)] } := Iff.rfl

@[simp] theorem ends_discard {response : Option Nat} {Q : Unit → EventLoop → Prop} :
    Ends (discard response) s Q E ↔
      Q () { s with dropped := s.dropped ++ response.toList } := Iff.rfl

@[simp] theorem ends_putRuntime {id : Nat} {r : Runtime} {Q : Unit → EventLoop → Prop} :
    Ends (putRuntime id r) s Q E ↔ Q () (s.put id r) := Iff.rfl

@[simp] theorem ends_respondAll {result : Response} {responses : List Nat}
    {Q : Unit → EventLoop → Prop} :
    Ends (respondAll result responses) s Q E ↔
      Q () { s with answers := s.answers ++ responses.map (·, result) } := by
  induction responses generalizing s with
  | nil =>
      rw [List.map_nil, List.append_nil]
      exact Iff.rfl
  | cons response rest ih =>
      rw [respondAll, ends_bind, ends_respond, ih, List.map_cons, List.append_assoc]
      exact Iff.rfl

@[simp] theorem ends_withConnection {id : Nat} {missing : LoopM α} {found : Runtime → LoopM α}
    {Q : α → EventLoop → Prop} :
    Ends (withConnection id missing found) s Q E ↔
      (s.connections[id]? = none → Ends missing s Q E) ∧
        ∀ r, s.connections[id]? = some r → Ends (found r) s Q E := by
  unfold withConnection
  rw [ends_bind, ends_get]
  cases h : s.connections[id]? with
  | none => simp
  | some r => simp

theorem call_snd (m : ConnM α) (c : Connection) : (call m c).2 = after m c := by
  unfold call after
  cases m c <;> rfl

theorem call_eq {m : ConnM α} {c c' : Connection} {r : Except CoreError α}
    (h : call m c = (r, c')) : c' = after m c := by
  rw [← call_snd, h]

end Rules

/-! ## The account of the requests -/

/-- The requests a connection has yet to answer. -/
def Runtime.waiting (r : Runtime) : Multiset Nat :=
  r.connectWaiter.toList + r.pendingAccepts + total r.pendingReads (fun p => {p.response}) +
    total r.pendingWrites (fun p => {p.response}) + r.pendingFlushes

def EventLoop.waiting (s : EventLoop) : Multiset Nat := total s.connections Runtime.waiting

/-- The requests that answers have gone to. -/
def answered (out : List (Nat × Response)) : Multiset Nat := out.map Prod.fst

/-- What has become of the requests: answered, dropped or waiting. -/
def EventLoop.account (s : EventLoop) : Multiset Nat :=
  answered s.answers + s.dropped + s.waiting

@[simp] theorem answered_nil : answered [] = 0 := rfl

@[simp] theorem answered_append (out out' : List (Nat × Response)) :
    answered (out ++ out') = answered out + answered out' := by
  rw [answered, List.map_append, ← Multiset.coe_add]
  rfl

@[simp] theorem answered_map (result : Response) (responses : List Nat) :
    answered (responses.map (·, result)) = responses := by
  rw [answered, List.map_map]
  exact congrArg _ (List.map_id _)

@[simp] theorem answered_singleton (response : Nat) (result : Response) :
    answered [(response, result)] = {response} := rfl

/-! ## Steps -/

variable (suite : Suite)

/-- An operation on behalf of a waiter. -/
def Runtime.Serves (r : Runtime) : Op → Prop
  | .drainOutput => True
  | .readStream streamId maxLen =>
      ∃ p, r.pendingReads[streamId]? = some p ∧ p.maxLen = maxLen
  | .writeStream streamId data fin =>
      ∃ p, r.pendingWrites[streamId]? = some p ∧ p.data = data ∧ p.fin = fin
  | _ => False

/-- What a command has the core of its connection do. -/
def Command.asks : Command → Op → Prop
  | .openStream _ _ => (· = .openStream)
  | .read _ streamId maxLen _ => (· = .readStream streamId maxLen)
  | .write _ streamId data fin _ => (· = .writeStream streamId data fin)
  | .close _ errorCode reason _ => (· = .close errorCode reason)
  | _ => fun _ => False

/-- The requests that come in. -/
def requests (command : Option Command) : List Nat := command.elim [] Command.responses

/-- One step of a connection: its core performs operations that are its `own`,
that the command asks for or that serve a waiter, and of the requests that wait
or come in, some are answered and some dropped. -/
structure Runtime.Step (own : Op → Prop) (command : Option Command)
    (out : List (Nat × Response)) (lost : List Nat) (r r' : Runtime) : Prop where
  path : r'.path = r.path
  isServer : r'.isServer = r.isServer
  core : ∃ ops, (∀ op ∈ ops, own op ∨ (∃ c, command = some c ∧ c.asks op) ∨ r.Serves op) ∧
    r'.core = final suite r.core ops
  reads : ∀ (streamId : Nat) (p : PendingRead), r'.pendingReads[streamId]? = some p →
    r.pendingReads[streamId]? = some p ∨
      ∃ id, command = some (.read id streamId p.maxLen p.response)
  writes : ∀ (streamId : Nat) (p : PendingWrite), r'.pendingWrites[streamId]? = some p →
    r.pendingWrites[streamId]? = some p ∨
      ∃ id, command = some (.write id streamId p.data p.fin p.response)
  waiters : r.waiting + requests command = answered out + lost + r'.waiting

/-- One step of the loop on the connection `id`. -/
inductive Touch (own : Op → Prop) (id : Nat) : EventLoop → EventLoop → Prop
  | asked (s : EventLoop) (n : Nat) : Touch own id s { s with questions := n }
  | changed {s : EventLoop} {r r' : Runtime} {out : List (Nat × Response)}
      (h : s.connections[id]? = some r) (hstep : r.Step suite own none out [] r') :
      Touch own id s { s.put id r' with answers := s.answers ++ out }
  | sent {s : EventLoop} {r : Runtime} {packet : Packet} {bytes : Bytes}
      (h : s.connections[id]? = some r) (hencode : r.core.encode suite packet = .ok bytes) :
      Touch own id s { s with sent := s.sent ++ [(r.path.peer, bytes)] }
  | handed (s : EventLoop) : Touch own id s { s with handed := s.handed ++ [id] }
  | removed {s : EventLoop} {r : Runtime} {out : List (Nat × Response)}
      (h : s.connections[id]? = some r) (hout : answered out = r.waiting) :
      Touch own id s
        { s with connections := s.connections.erase id, answers := s.answers ++ out }

abbrev Touched (own : Op → Prop) (id : Nat) : EventLoop → EventLoop → Prop :=
  Relation.ReflTransGen (Touch suite own id)

/-- Operations only on behalf of waiters. -/
def noneOwn : Op → Prop := fun _ => False

variable {suite} {own own' : Op → Prop} {command : Option Command} {out : List (Nat × Response)}
  {lost : List Nat} {r r' : Runtime} {id : Nat} {s s' : EventLoop}

theorem Touch.touched (h : Touch suite own id s s') : Touched suite own id s s' := .single h

/-- A question on the way. -/
theorem Touched.ask (h : Touched suite own id s s') (n : Nat) :
    Touched suite own id s { s' with questions := n } := h.tail (.asked s' n)

/-! ## Waiters -/

theorem drainReads_ends (world : World) (errorCode : Nat) (r : Runtime) (s : EventLoop) :
    Ends (drainReads world errorCode r) s
      (fun _ s' => ∃ out n, answered out = total r.pendingReads (fun p => {p.response}) ∧
        s' = { s with questions := n, answers := s.answers ++ out })
      fun _ _ => False := by
  rw [drainReads, ends_bind, ends_ask, ends_respondAll]
  refine ⟨_, _, ?_, rfl⟩
  rw [answered_map]
  exact walk_eq_total (world.order_perm _ _) _

theorem drainWrites_ends (world : World) (errorCode : Nat) (r : Runtime) (s : EventLoop) :
    Ends (drainWrites world errorCode r) s
      (fun _ s' => ∃ out n, answered out = total r.pendingWrites (fun p => {p.response}) ∧
        s' = { s with questions := n, answers := s.answers ++ out })
      fun _ _ => False := by
  rw [drainWrites, ends_bind, ends_ask, ends_respondAll]
  refine ⟨_, _, ?_, rfl⟩
  rw [answered_map]
  exact walk_eq_total (world.order_perm _ _) _

variable (suite own) in
/-- A connection that is given up answers everyone it kept waiting. -/
theorem removeRuntime_touched (world : World) (errorCode : Nat) :
    Ends (removeRuntime world id errorCode) s (fun _ s' => Touched suite own id s s')
      fun _ _ => False := by
  rw [removeRuntime, ends_withConnection]
  refine ⟨fun _ => .refl, fun r hr => ?_⟩
  rw [ends_bind, ends_modify, ends_bind]
  refine (drainReads_ends world errorCode r _).mono ?_ fun _ _ h => h
  rintro _ _ ⟨reads, n, hreads, rfl⟩
  rw [ends_bind]
  refine (drainWrites_ends world errorCode r _).mono ?_ fun _ _ h => h
  rintro _ _ ⟨writes, m, hwrites, rfl⟩
  simp only [ends_bind, ends_respondAll, List.append_assoc]
  refine .ask (Touch.removed hr ?_).touched m
  simp only [answered_append, answered_map, hreads, hwrites, Runtime.waiting]
  abel

theorem erase_subset {β : Type} {t : TreeMap Nat β} {k k' : Nat} {b : β}
    (h : (t.erase k)[k']? = some b) : t[k']? = some b := by
  rw [TreeMap.getElem?_erase] at h
  split at h
  · cases h
  · exact h

theorem empty_subset {β : Type} {t : TreeMap Nat β} {k : Nat} {b : β}
    (h : (∅ : TreeMap Nat β)[k]? = some b) : t[k]? = some b := by
  rw [TreeMap.getElem?_emptyc] at h
  cases h

/-- A step in which the core has no part. -/
theorem Runtime.Step.of_core (hpath : r'.path = r.path) (hserver : r'.isServer = r.isServer)
    (hcore : r'.core = r.core)
    (hreads : ∀ (streamId : Nat) (p : PendingRead), r'.pendingReads[streamId]? = some p →
      r.pendingReads[streamId]? = some p)
    (hwrites : ∀ (streamId : Nat) (p : PendingWrite), r'.pendingWrites[streamId]? = some p →
      r.pendingWrites[streamId]? = some p)
    (hwaiters : r.waiting + requests command = answered out + lost + r'.waiting) :
    r.Step suite own command out lost r' where
  path := hpath
  isServer := hserver
  core := ⟨[], nofun, hcore⟩
  reads := fun streamId p hp => .inl (hreads streamId p hp)
  writes := fun streamId p hp => .inl (hwrites streamId p hp)
  waiters := hwaiters

/-- A step of the core that leaves the waiters alone. -/
theorem Runtime.Step.of_ops (ops : List Op) (hpath : r'.path = r.path)
    (hserver : r'.isServer = r.isServer)
    (hops : ∀ op ∈ ops, own op ∨ (∃ c, command = some c ∧ c.asks op) ∨ r.Serves op)
    (hcore : r'.core = final suite r.core ops) (hreads : r'.pendingReads = r.pendingReads)
    (hwrites : r'.pendingWrites = r.pendingWrites) (hwaiting : r'.waiting = r.waiting)
    (hout : answered out = requests command) : r.Step suite own command out [] r' where
  path := hpath
  isServer := hserver
  core := ⟨ops, hops, hcore⟩
  reads := fun streamId p hp => .inl (hreads ▸ hp)
  writes := fun streamId p hp => .inl (hwrites ▸ hp)
  waiters := by rw [hwaiting, hout, Multiset.coe_nil, add_zero, add_comm]

theorem Touch.quiet (h : s.connections[id]? = some r) (hstep : r.Step suite own none [] [] r') :
    Touch suite own id s (s.put id r') := by
  have htouch := Touch.changed h hstep
  rwa [List.append_nil] at htouch

/-- A connection that is closed answers everyone it kept waiting, and stays. -/
theorem failConnectionWaiters_touched (world : World) (errorCode : Nat) :
    Ends (failConnectionWaiters world id errorCode) s (fun _ s' => Touched suite own id s s')
      fun _ _ => False := by
  rw [failConnectionWaiters, ends_withConnection]
  refine ⟨fun _ => .refl, fun r hr => ?_⟩
  rw [ends_bind, ends_putRuntime, ends_bind]
  refine (drainReads_ends world errorCode r _).mono ?_ fun _ _ h => h
  rintro _ _ ⟨reads, n, hreads, rfl⟩
  rw [ends_bind]
  refine (drainWrites_ends world errorCode r _).mono ?_ fun _ _ h => h
  rintro _ _ ⟨writes, m, hwrites, rfl⟩
  simp only [ends_bind, ends_respondAll, List.append_assoc]
  refine .ask (Touch.changed hr ?_).touched m
  refine .of_core rfl rfl rfl (fun _ _ => empty_subset) (fun _ _ => empty_subset) ?_
  simp only [answered_append, answered_map, hreads, hwrites, Runtime.waiting, total_empty,
    Option.toList_none, Multiset.coe_nil]
  abel

theorem elim_singleton {β : Type} (o : Option β) (f : β → Nat) :
    (o.elim 0 fun b => {f b} : Multiset Nat) = (o.map f).toList := by
  cases o <;> rfl

/-- What is taken out of the pending reads. -/
theorem erase_reads (r : Runtime) (streamId : Nat) :
    total (r.pendingReads.erase streamId) (fun p => ({p.response} : Multiset Nat)) +
        (r.pendingReads[streamId]?.map PendingRead.response).toList =
      total r.pendingReads fun p => {p.response} := by
  rw [← elim_singleton, total_erase_add]

theorem erase_writes (r : Runtime) (streamId : Nat) :
    total (r.pendingWrites.erase streamId) (fun p => ({p.response} : Multiset Nat)) +
        (r.pendingWrites[streamId]?.map PendingWrite.response).toList =
      total r.pendingWrites fun p => {p.response} := by
  rw [← elim_singleton, total_erase_add]

theorem failStreamWaiters_touched (streamId errorCode : Nat) :
    Ends (failStreamWaiters id streamId errorCode) s (fun _ s' => Touched suite own id s s')
      fun _ _ => False := by
  rw [failStreamWaiters, ends_withConnection]
  refine ⟨fun _ => .refl, fun r hr => ?_⟩
  simp only [ends_bind, ends_putRuntime, ends_respondAll, List.append_assoc]
  refine (Touch.changed hr ?_).touched
  refine .of_core rfl rfl rfl (fun _ _ => erase_subset) (fun _ _ => erase_subset) ?_
  simp only [answered_append, answered_map, Runtime.waiting, ← erase_reads r streamId,
    ← erase_writes r streamId, Multiset.coe_nil]
  abel

theorem serviceFlushes_touched :
    Ends (serviceFlushes id) s (fun _ s' => Touched suite own id s s') fun _ _ => False := by
  rw [serviceFlushes, ends_withConnection]
  refine ⟨fun _ => .refl, fun r hr => ?_⟩
  rw [ends_ite]
  refine ⟨fun _ => ?_, fun _ => .refl⟩
  simp only [ends_bind, ends_putRuntime, ends_respondAll]
  refine (Touch.changed hr ?_).touched
  refine .of_core rfl rfl rfl (fun _ _ hp => hp) (fun _ _ hp => hp) ?_
  simp only [answered_map, Runtime.waiting, Multiset.coe_nil]
  abel

theorem onStreamOpened_touched (streamId : Nat) :
    Ends (onStreamOpened id streamId) s (fun _ s' => Touched suite own id s s')
      fun _ _ => False := by
  rw [onStreamOpened, ends_withConnection]
  refine ⟨fun _ => .refl, fun r hr => ?_⟩
  cases haccepts : r.pendingAccepts with
  | cons response rest =>
      simp only [ends_bind, ends_putRuntime, ends_respond]
      refine (Touch.changed hr ?_).touched
      refine .of_core rfl rfl rfl (fun _ _ hp => hp) (fun _ _ hp => hp) ?_
      simp only [answered_singleton, Runtime.waiting, haccepts, Multiset.coe_nil,
        ← Multiset.cons_coe, ← Multiset.singleton_add]
      abel
  | nil =>
      simp only [ends_putRuntime]
      refine (Touch.quiet hr ?_).touched
      exact .of_ops [] rfl rfl (fun _ h => by cases h) rfl rfl rfl
        (by simp only [Runtime.waiting, haccepts]) rfl

/-! ## Reads and writes -/

/-- A read taken from where it waits is one that comes in. -/
theorem Runtime.Step.reread {streamId : Nat} {pending : PendingRead}
    (h : Runtime.Step suite own
      (some (.read id streamId pending.maxLen pending.response)) out lost
      { r with pendingReads := r.pendingReads.erase streamId } r')
    (hp : r.pendingReads[streamId]? = some pending) : r.Step suite own none out lost r' where
  path := h.path
  isServer := h.isServer
  core := by
    obtain ⟨ops, hops, hfinal⟩ := h.core
    refine ⟨ops, fun op hop => ?_, hfinal⟩
    rcases hops op hop with hown | ⟨c, hc, hasks⟩ | hserves
    · exact .inl hown
    · cases hc
      rw [hasks]
      exact .inr (.inr ⟨pending, hp, rfl⟩)
    · refine .inr (.inr ?_)
      cases op with
      | readStream streamId' maxLen =>
          obtain ⟨p, hp', hlen⟩ := hserves
          exact ⟨p, erase_subset hp', hlen⟩
      | _ => exact hserves
  reads := fun streamId' ⟨maxLen, response⟩ hp' => by
    rcases h.reads streamId' _ hp' with hold | ⟨id', hc⟩
    · exact .inl (erase_subset hold)
    · obtain ⟨maxLen', response'⟩ := pending
      cases hc
      exact .inl hp
  writes := fun streamId' p hp' => (h.writes streamId' p hp').imp_right fun ⟨_, hc⟩ => nomatch hc
  waiters := by
    have herase := erase_reads r streamId
    rw [hp] at herase
    have hwaiters := h.waiters
    simp only [Runtime.waiting, requests, Option.elim_some, Option.elim_none, Command.responses,
      Multiset.coe_nil, add_zero, Option.map_some, Option.toList_some] at hwaiters herase ⊢
    rw [← hwaiters, ← herase]
    abel

theorem Runtime.Step.rewrite {streamId : Nat} {pending : PendingWrite}
    (h : Runtime.Step suite own
      (some (.write id streamId pending.data pending.fin pending.response)) out lost
      { r with pendingWrites := r.pendingWrites.erase streamId } r')
    (hp : r.pendingWrites[streamId]? = some pending) : r.Step suite own none out lost r' where
  path := h.path
  isServer := h.isServer
  core := by
    obtain ⟨ops, hops, hfinal⟩ := h.core
    refine ⟨ops, fun op hop => ?_, hfinal⟩
    rcases hops op hop with hown | ⟨c, hc, hasks⟩ | hserves
    · exact .inl hown
    · cases hc
      rw [hasks]
      exact .inr (.inr ⟨pending, hp, rfl, rfl⟩)
    · refine .inr (.inr ?_)
      cases op with
      | writeStream streamId' data fin =>
          obtain ⟨p, hp', hdata⟩ := hserves
          exact ⟨p, erase_subset hp', hdata⟩
      | _ => exact hserves
  reads := fun streamId' p hp' => (h.reads streamId' p hp').imp_right fun ⟨_, hc⟩ => nomatch hc
  writes := fun streamId' ⟨data, fin, response⟩ hp' => by
    rcases h.writes streamId' _ hp' with hold | ⟨id', hc⟩
    · exact .inl (erase_subset hold)
    · obtain ⟨data', fin', response'⟩ := pending
      cases hc
      exact .inl hp
  waiters := by
    have herase := erase_writes r streamId
    rw [hp] at herase
    have hwaiters := h.waiters
    simp only [Runtime.waiting, requests, Option.elim_some, Option.elim_none, Command.responses,
      Multiset.coe_nil, add_zero, Option.map_some, Option.toList_some] at hwaiters herase ⊢
    rw [← hwaiters, ← herase]
    abel

/-- What the loop is left with after a step of a connection. -/
def EventLoop.stepped (s : EventLoop) (id : Nat) (r' : Runtime) (out : List (Nat × Response))
    (lost : List Nat) : EventLoop :=
  { s.put id r' with answers := s.answers ++ out, dropped := s.dropped ++ lost }

theorem EventLoop.stepped_out (s : EventLoop) (id : Nat) (r' : Runtime)
    (out : List (Nat × Response)) :
    { s.put id r' with answers := s.answers ++ out } = s.stepped id r' out [] := by
  rw [EventLoop.stepped, List.append_nil]
  rfl

theorem EventLoop.stepped_lost (s : EventLoop) (id : Nat) (r' : Runtime) (lost : List Nat) :
    { s with dropped := s.dropped ++ lost }.put id r' = s.stepped id r' [] lost := by
  rw [EventLoop.stepped, List.append_nil]
  rfl

theorem Touch.stepped (h : s.connections[id]? = some r) (hstep : r.Step suite own none out [] r') :
    Touch suite own id s (s.stepped id r' out []) := by
  rw [← EventLoop.stepped_out]
  exact .changed h hstep

/-- A method of the core is an operation of a run. -/
theorem final_one (c : Connection) (op : Op) :
    final suite c [op] = after (perform suite op) c := rfl

theorem after_map {ε σ α β : Type} (g : α → β) (m : EStateM ε σ α) (s : σ) :
    after (g <$> m) s = after m s := by
  show after (EStateM.map g m) s = _
  unfold after EStateM.map
  cases m s <;> rfl

variable (suite own) in
/-- A read that is answered, or that has to wait. -/
theorem answerRead_ends (streamId maxLen response : Nat) :
    Ends (answerRead id streamId r ⟨maxLen, response⟩) s
      (fun _ s' => ∃ r' out lost, s' = s.stepped id r' out lost ∧
        r.Step suite own (some (.read id streamId maxLen response)) out lost r' ∧
        lost ⊆ (r.pendingReads[streamId]?.map PendingRead.response).toList)
      fun _ _ => False := by
  unfold answerRead
  cases hcall : call (readStream streamId maxLen) r.core with
  | mk result core =>
  have hcore : core = final suite r.core [.readStream streamId maxLen] := by
    rw [final_one, call_eq hcall]
    exact (after_map ..).symm
  have hops : ∀ op ∈ [Op.readStream streamId maxLen], own op ∨
      (∃ c, some (Command.read id streamId maxLen response) = some c ∧ c.asks op) ∨
        r.Serves op :=
    fun op hop => .inr (.inl ⟨_, rfl, List.mem_singleton.1 hop⟩)
  -- the request is answered at once
  have hanswered : ∀ result : Response, ∃ r' out lost,
      { s.put id { r with core := core } with
        answers := s.answers ++ [(response, result)] } = s.stepped id r' out lost ∧
        r.Step suite own (some (.read id streamId maxLen response)) out lost r' ∧
        lost ⊆ (r.pendingReads[streamId]?.map PendingRead.response).toList := fun result =>
    ⟨_, _, [], EventLoop.stepped_out .., .of_ops _ rfl rfl hops hcore rfl rfl rfl rfl,
      List.nil_subset _⟩
  cases result with
  | ok result =>
      dsimp only
      rw [ends_ite]
      refine ⟨fun _ => hanswered _, fun _ => ?_⟩
      simp only [ends_bind, ends_putRuntime, ends_discard]
      refine ⟨_, _, _, EventLoop.stepped_lost .., ?_, List.Subset.refl _⟩
      exact
        { path := rfl
          isServer := rfl
          core := ⟨_, hops, hcore⟩
          reads := fun streamId' p hp => by
            rw [TreeMap.getElem?_insert] at hp
            split at hp
            · next heq =>
                cases hp
                exact .inr ⟨id, by rw [Std.compare_eq_iff_eq.1 heq]⟩
            · exact .inl hp
          writes := fun _ _ hp => .inl hp
          waiters := by
            simp only [answered_nil, Runtime.waiting, total_insert, ← erase_reads r streamId,
              requests, Option.elim_some, Command.responses, Multiset.coe_singleton]
            abel }
  | error error => exact hanswered _

theorem serviceRead_touched (streamId : Nat) :
    Ends (serviceRead id streamId) s (fun _ s' => Touched suite own id s s')
      fun _ _ => False := by
  rw [serviceRead, ends_withConnection]
  refine ⟨fun _ => .refl, fun r hr => ?_⟩
  cases hp : r.pendingReads[streamId]? with
  | none => exact .refl
  | some pending =>
      refine (answerRead_ends suite own streamId pending.maxLen pending.response).mono ?_
        fun _ _ h => h
      rintro _ _ ⟨r', out, lost, rfl, hstep, hlost⟩
      have hnil : lost = [] := List.subset_nil.1 (by simpa using hlost)
      subst hnil
      exact (Touch.stepped hr (hstep.reread hp)).touched

variable (suite own) in
/-- A write that is answered, or that has to wait. -/
theorem tryWrite_ends (streamId : Nat) (data : Bytes) (fin : Bool) (response : Nat) :
    Ends (tryWrite id streamId r ⟨data, fin, response⟩) s
      (fun _ s' => ∃ r' out lost, s' = s.stepped id r' out lost ∧
        r.Step suite own (some (.write id streamId data fin response)) out lost r' ∧
        lost ⊆ (r.pendingWrites[streamId]?.map PendingWrite.response).toList)
      fun _ _ => False := by
  unfold tryWrite
  cases hcall : call (writeStream streamId data fin) r.core with
  | mk result core =>
  have hcore : core = final suite r.core [.writeStream streamId data fin] := by
    rw [final_one, call_eq hcall]
    exact (after_map ..).symm
  have hops : ∀ op ∈ [Op.writeStream streamId data fin], own op ∨
      (∃ c, some (Command.write id streamId data fin response) = some c ∧ c.asks op) ∨
        r.Serves op :=
    fun op hop => .inr (.inl ⟨_, rfl, List.mem_singleton.1 hop⟩)
  -- the request is answered at once
  have hanswered : ∀ result : Response, ∃ r' out lost,
      { s.put id { r with core := core } with
        answers := s.answers ++ [(response, result)] } = s.stepped id r' out lost ∧
        r.Step suite own (some (.write id streamId data fin response)) out lost r' ∧
        lost ⊆ (r.pendingWrites[streamId]?.map PendingWrite.response).toList := fun result =>
    ⟨_, _, [], EventLoop.stepped_out .., .of_ops _ rfl rfl hops hcore rfl rfl rfl rfl,
      List.nil_subset _⟩
  dsimp only
  split
  · exact hanswered _
  · simp only [ends_bind, ends_putRuntime, ends_discard, ends_pure]
    refine ⟨_, _, _, EventLoop.stepped_lost .., ?_, List.Subset.refl _⟩
    exact
      { path := rfl
        isServer := rfl
        core := ⟨_, hops, hcore⟩
        reads := fun _ _ hp => .inl hp
        writes := fun streamId' p hp => by
          rw [TreeMap.getElem?_insert] at hp
          split at hp
          · next heq =>
              cases hp
              exact .inr ⟨id, by rw [Std.compare_eq_iff_eq.1 heq]⟩
          · exact .inl hp
        waiters := by
          simp only [answered_nil, Runtime.waiting, total_insert, ← erase_writes r streamId,
            requests, Option.elim_some, Command.responses, Multiset.coe_singleton]
          abel }
  · exact hanswered _

variable (suite own) in
theorem serviceWrites_touched (streamIds : List Nat) :
    Ends (serviceWrites id streamIds) s (fun _ s' => Touched suite own id s s')
      fun _ _ => False := by
  induction streamIds generalizing s with
  | nil => exact .refl
  | cons streamId rest ih =>
      rw [serviceWrites, ends_withConnection]
      refine ⟨fun _ => .refl, fun r hr => ?_⟩
      cases hp : r.pendingWrites[streamId]? with
      | none => exact ih
      | some pending =>
          dsimp only
          rw [ends_bind]
          refine (tryWrite_ends suite own streamId pending.data pending.fin
            pending.response).mono ?_ fun _ _ h => h
          rintro _ _ ⟨r', out, lost, rfl, hstep, hlost⟩
          have hnil : lost = [] := List.subset_nil.1 (by simpa using hlost)
          subst hnil
          rw [ends_bind]
          refine ih.mono (fun _ s' hrest => ?_) fun _ _ h => h
          exact .trans (Touch.stepped hr (hstep.rewrite hp)).touched hrest

theorem servicePendingWrites_touched (world : World) :
    Ends (servicePendingWrites world id) s (fun _ s' => Touched suite own id s s')
      fun _ _ => False := by
  rw [servicePendingWrites, ends_bind, ends_get, ends_bind, ends_ask]
  refine (serviceWrites_touched suite own _).mono (fun _ s' h => ?_) fun _ _ h => h
  exact .head (.asked s _) h

/-! ## The outputs of the core -/

/-- The waiter of `connect` is told that the connection is there. -/
theorem welcome_step (hpath : r'.path = r.path) (hserver : r'.isServer = r.isServer)
    (hcore : r'.core = r.core) (hreads : r'.pendingReads = r.pendingReads)
    (hwrites : r'.pendingWrites = r.pendingWrites)
    (haccepts : r'.pendingAccepts = r.pendingAccepts)
    (hflushes : r'.pendingFlushes = r.pendingFlushes) (hwaiter : r'.connectWaiter = none) :
    r.Step suite own none (r.connectWaiter.toList.map (·, .connected (.ok id))) [] r' := by
  refine .of_core hpath hserver hcore (fun _ _ hp => hreads ▸ hp) (fun _ _ hp => hwrites ▸ hp) ?_
  simp only [answered_map, Runtime.waiting, hreads, hwrites, haccepts, hflushes, hwaiter,
    Option.toList_none, Multiset.coe_nil]
  abel

theorem onEstablished_touched (world : World) :
    Ends (onEstablished world id) s (fun _ s' => Touched suite own id s s')
      fun _ _ => False := by
  rw [onEstablished, ends_withConnection]
  refine ⟨fun _ => .refl, fun r hr => ?_⟩
  rw [ends_ite]
  refine ⟨fun _ => ?_, fun _ => ?_⟩
  · rw [ends_bind, ends_ask]
    -- the room there was for it is known only to the world
    split
    · simp only [ends_bind, ends_modify, ends_putRuntime, ends_respondAll]
      refine .head (.asked s (s.questions + 1)) (.head (.handed _) (Touch.touched ?_))
      refine .changed hr ?_
      exact welcome_step rfl rfl rfl rfl rfl rfl rfl rfl
    · exact (removeRuntime_touched suite own world 0).mono (fun _ _ h => .head (.asked s _) h)
        fun _ _ h => h
    · exact (removeRuntime_touched suite own world 0).mono (fun _ _ h => .head (.asked s _) h)
        fun _ _ h => h
  · simp only [ends_bind, ends_putRuntime, ends_respondAll]
    refine (Touch.changed hr ?_).touched
    exact welcome_step rfl rfl rfl rfl rfl rfl rfl rfl

/-- However a datagram fares, it was sent. -/
theorem sendTo_ends (world : World) (bytes : Bytes) (peer : SocketAddr) :
    Ends (sendTo world bytes peer) s
      (fun _ s' => s' = { s with sent := s.sent ++ [(peer, bytes)], questions := s.questions + 1 })
      fun _ s' =>
        s' = { s with sent := s.sent ++ [(peer, bytes)], questions := s.questions + 1 } := by
  rw [sendTo, ends_bind, ends_modify, ends_bind, ends_ask]
  split
  · rfl
  · rw [ends_ite]
    exact ⟨fun _ => rfl, fun _ => rfl⟩

theorem processOutput_touched (world : World) (output : CoreOutput) :
    Within (Touched suite own id) (processOutput suite world id output) s := by
  have hsafe : ∀ {α : Type} {m : LoopM α},
      Ends m s (fun _ s' => Touched suite own id s s') (fun _ _ => False) →
        Within (Touched suite own id) m s :=
    fun h => h.mono (fun _ _ h => h) fun _ _ h => h.elim
  cases output with
  | send packet =>
      rw [Within, processOutput, ends_withConnection]
      refine ⟨fun _ => .refl, fun r hr => ?_⟩
      rw [ends_bind, ends_ofExcept]
      refine ⟨fun bytes hencode => ?_, fun _ _ => .refl⟩
      have hsent : Touched suite own id s
          { s with sent := s.sent ++ [(r.path.peer, bytes)] } := Touch.touched (.sent hr hencode)
      refine (sendTo_ends world bytes r.path.peer).mono ?_ ?_
      · rintro _ _ rfl
        exact .ask hsent _
      · rintro _ _ rfl
        exact .ask hsent _
  | streamOpened streamId => exact hsafe (onStreamOpened_touched streamId)
  | streamReadable streamId => exact hsafe (serviceRead_touched streamId)
  | streamFinished streamId => exact hsafe (serviceRead_touched streamId)
  | streamReset streamId errorCode => exact hsafe (failStreamWaiters_touched streamId errorCode)
  | connectionStateChanged state =>
      cases state with
      | established => exact hsafe (onEstablished_touched world)
      | _ => exact .refl
  | connectionClosed errorCode => exact hsafe (failConnectionWaiters_touched world errorCode)

theorem processEach_touched (world : World) (outputs : List CoreOutput) :
    Within (Touched suite own id) (processEach suite world id outputs) s := by
  induction outputs generalizing s with
  | nil => exact .refl
  | cons output rest ih => exact .bind (processOutput_touched world output) fun _ _ => ih

theorem processRound_touched (world : World) :
    Within (Touched suite own id) (processRound suite world id) s := by
  rw [Within, processRound, ends_withConnection]
  refine ⟨fun _ => .refl, fun r hr => ?_⟩
  rw [ends_bind, ends_putRuntime]
  have hdrained : r.Step suite own none [] []
      { r with core := { r.core with output := [] } } :=
    .of_ops [.drainOutput] rfl rfl
      (fun op hop => by rw [List.mem_singleton.1 hop]; exact .inr (.inr trivial))
      rfl rfl rfl rfl rfl
  have hput := (Touch.quiet hr hdrained).touched
  rw [ends_ite]
  refine ⟨fun _ => ?_, fun _ => ?_⟩
  · exact (servicePendingWrites_touched world).mono (fun _ _ h => hput.trans h)
      fun _ _ h => h.elim
  · rw [ends_bind]
    exact Ends.mono (processEach_touched world _) (fun _ _ h => hput.trans h)
      fun _ _ h => hput.trans h

theorem processLoop_touched (world : World) (fuel : Nat) :
    Within (Touched suite own id) (processLoop suite world id fuel) s := by
  induction fuel generalizing s with
  | zero => exact .refl
  | succ fuel ih =>
      rw [processLoop]
      exact .bind (processRound_touched world) fun goesOn _ => .ite (fun _ => ih) fun _ => .pure _

/-- Whatever the outputs of a connection lead to, it is done to that connection. -/
theorem processOutputs_touched (world : World) :
    Within (Touched suite own id) (processOutputs suite world id) s := by
  refine .get_bind (.bind (processLoop_touched world _) fun _ s₁ => ?_)
  refine .bind ?_ fun _ s₂ => ?_
  · exact serviceFlushes_touched.mono (fun _ _ h => h) fun _ _ h => h.elim
  · rw [Within, ends_withConnection]
    refine ⟨fun _ => .refl, fun r hr => ?_⟩
    rw [ends_ite]
    refine ⟨fun _ => ?_, fun _ => .refl⟩
    exact (removeRuntime_touched suite own world 0).mono (fun _ _ h => h) fun _ _ h => h.elim

end DartUdp.Endpoint
