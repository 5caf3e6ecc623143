import DartUdp.Proofs.ConnDelivery
import DartUdp.Proofs.NetCredit

/-!
# Streams from end to end

Two connections and a network that loses, duplicates, delays and reorders. What
the application reads off a stream at one end is where what was accepted at the
other end starts, and an end of stream is reported when that end was written and
everything before it has been read.

A call that reads or writes can fail after it has done its work, when the flush
that follows fails. Then the application is told that nothing happened: bytes it
was not given are gone, or bytes it believes refused go out. So the calls that
fail must leave the stream where it was.

The module is for `reads_what_was_written`. `View.Delivers` is the invariant of one
end, and `Net.Delivers.call` keeps it at both, whatever the call answers.
-/

namespace DartUdp.Lib

/-- Where a program that does not answer has failed. -/
theorem Ends.unanswered {ε σ α : Type} {m : EStateM ε σ α} {s : σ} {Q : α → σ → Prop}
    {E : ε → σ → Prop} (h : Ends m s Q E) (hnone : Lib.answer m s = none) :
    ∃ e, E e (Lib.after m s) := by
  unfold Lib.answer at hnone
  unfold Lib.after
  cases hrun : m s with
  | ok a s' =>
      rw [hrun] at hnone
      cases hnone
  | error e s' => exact ⟨e, h.error hrun⟩

end DartUdp.Lib

namespace DartUdp.Core

open DartUdp.Lib DartUdp.Udp

variable {suite : Suite} {L : Prop} {k : Cause} {v v' : View} {c : Connection} {id : Nat}
  {s : StreamRecord} {role : ConnectionRole} {w peer : Written} {taken : Nat → Bytes}

/-! ## One end -/

/-- An end that stands where its writing stands, tells what was written, and has
what was written at the other. -/
structure View.Delivers (v : View) (w peer : Written) (taken : Nat → Bytes) : Prop where
  metered : v.Metered
  apart : v.Apart
  follows : v.Follows w
  carries : v.Carries (Copies w)
  gathers : v.Gathers peer taken

theorem Edits.delivers (e : Edits suite L k v v') (hread : ∀ id maxLen, k ≠ .reading id maxLen)
    (hwrite : ∀ id data fin, k ≠ .writing id data fin)
    (hears : ∀ p, k = .packet p → ∀ f ∈ p.frames, Copies peer f) (h : v.Delivers w peer taken) :
    v'.Delivers w peer taken := by
  obtain ⟨hmetered, hgathers⟩ := e.gathers hread h.metered hears h.gathers
  obtain ⟨hapart, hcarries⟩ := e.copies hwrite h.apart h.carries
  exact ⟨hmetered, hapart, e.follows hwrite h.follows, hcarries, hgathers⟩

theorem View.Delivers.write {data : Bytes} {fin : Bool} {maxBuffer maxChunk n : Nat}
    {send : SendStream} (h : v.Delivers w peer taken) (hs : v.streams id = some s)
    (hw : s.send.write data fin maxBuffer maxChunk = .ok (n, send)) :
    (v.put id { s with send := send }).Delivers (w.add id data fin) peer taken :=
  ⟨h.metered.keep hs rfl rfl, ⟨h.apart.pending, h.apart.stored⟩, (h.follows.write hs hw).2,
    h.carries.write h.follows hs hw, h.gathers.put hs rfl⟩

theorem View.Delivers.read (h : v.Delivers w peer taken) (hs : v.streams id = some s)
    (maxLen : Nat) :
    (v.read id maxLen s).Delivers w peer
      (Function.update taken id (taken id ++ (s.read maxLen).1.data)) := by
  refine ⟨h.metered.read maxLen hs, h.apart.read id maxLen s, fun i => ?_,
    h.carries.read hs fun _ _ => trivial, h.gathers.read hs maxLen⟩
  obtain ⟨_, _, _, heq⟩ := v.read_eq id maxLen s
  rw [heq]
  show (v.put id (s.read maxLen).2).mark i = _
  have hmark : v.mark id =
      ((s.read maxLen).2.send.nextOffset, (s.read maxLen).2.send.finRequested) := by
    rw [View.mark_of_some hs]
    rfl
  exact (View.mark_put hmark).trans (h.follows i)

/-- A write that answers was made, and one that fails may have been. -/
theorem writeStream_delivers {data : Bytes} {fin : Bool} (h : c.view.Delivers w peer taken) :
    Ends (writeStream id data fin) c
      (fun _ c' => w.ended id = false ∧ c'.view.Delivers (w.add id data fin) peer taken)
      fun _ c' => c'.view = c.view ∨
        w.ended id = false ∧ c'.view.Delivers (w.add id data fin) peer taken := by
  refine (writeStream_ends sampleSuite id data fin).mono (fun n c' hn => ?_) fun _ c' hn => ?_
  · obtain ⟨s, send, _, _, hs, _, _, hw, hedits⟩ := hn
    exact ⟨(h.follows.write hs hw).1, hedits.delivers nofun nofun nofun (h.write hs hw)⟩
  · rcases hn with hview | ⟨s, send, _, _, n, hs, _, _, hw, hedits⟩
    · exact .inl hview
    · exact .inr ⟨(h.follows.write hs hw).1, hedits.delivers nofun nofun nofun (h.write hs hw)⟩

/-- What a read that answers returns was taken, and one that fails may have taken
something. -/
theorem readStream_delivers {maxLen : Nat} (h : c.view.Delivers w peer taken) :
    Ends (readStream id maxLen) c
      (fun r c' => c'.view.Delivers w peer (Function.update taken id (taken id ++ r.data)) ∧
        (r.eof = true → peer.ended id = true ∧ taken id ++ r.data = peer.bytes id))
      fun _ c' => c'.view = c.view ∨ ∃ data,
        c'.view.Delivers w peer (Function.update taken id (taken id ++ data)) := by
  refine (readStream_ends sampleSuite id maxLen).mono (fun r c' hr => ?_) fun _ c' hr => ?_
  · obtain ⟨s, hs, _, rfl, hedits⟩ := hr
    have hread := h.read hs maxLen
    refine ⟨hedits.delivers nofun nofun nofun hread, fun heof => ?_⟩
    have hrecord : (c.view.read id maxLen s).streams id = some (s.read maxLen).2 := by
      obtain ⟨_, _, _, heq⟩ := c.view.read_eq id maxLen s
      rw [heq]
      exact c.view.put_self id _
    have hall := hread.gathers.taken_all hrecord heof
    rw [Function.update_self] at hall
    exact hall
  · rcases hr with ⟨hview, _⟩ | ⟨s, hs, _, hedits⟩
    · exact .inl hview
    · exact .inr ⟨_, hedits.delivers nofun nofun nofun (h.read hs maxLen)⟩

/-! ## Calls that fail -/

/-- How far a stream has been written, whether its end has, and what is there to
be read. -/
def Connection.marks (c : Connection) (id : Nat) : Option (Nat × Bool × Nat × Bytes) :=
  c.streams.streams[id]?.map fun s =>
    (s.send.nextOffset, s.send.finRequested, s.recv.nextOffset, s.recv.ready)

/-- A call on a stream that fails leaves the stream where it was. -/
def FailsClean (suite : Suite) (c : Connection) (call : Call) (id : Nat) : Prop :=
  answer (perform suite call.op) c = none →
    (after (perform suite call.op) c).marks id = c.marks id

theorem View.mark_of_marks {c c' : Connection} (h : c'.marks id = c.marks id) :
    c'.view.mark id = c.view.mark id := by
  unfold Connection.marks at h
  show (c'.streams.streams[id]?).elim (0, false) _ = (c.streams.streams[id]?).elim (0, false) _
  cases hs : c'.streams.streams[id]? with
  | none =>
      rw [hs, Option.map_none, eq_comm, Option.map_eq_none_iff] at h
      rw [h]
  | some s' =>
      rw [hs, Option.map_some, eq_comm, Option.map_eq_some_iff] at h
      obtain ⟨s, hs', heq⟩ := h
      simp only [Prod.mk.injEq] at heq
      rw [hs', Option.elim_some, Option.elim_some, heq.1, heq.2.1]

/-- A write that leaves the marks where they were wrote nothing. -/
theorem View.Delivers.unwritten {c c' : Connection} {data : Bytes} {fin : Bool}
    (h : c.view.Delivers w peer taken) (h' : c'.view.Delivers (w.add id data fin) peer taken)
    (hmarks : c'.marks id = c.marks id) (hopen : w.ended id = false) :
    c'.view.Delivers w peer taken := by
  have hmark := View.mark_of_marks hmarks
  rw [h.follows id, h'.follows id, Prod.mk.injEq] at hmark
  have hbytes : (w.add id data fin).bytes id = w.bytes id ++ data := Function.update_self ..
  have hended : (w.add id data fin).ended id = (w.ended id || fin) := Function.update_self ..
  rw [hbytes, hended, hopen, List.length_append] at hmark
  have hdata : data = [] := List.length_eq_zero_iff.1 (by omega)
  have hfin : fin = false := hmark.2
  rw [hdata, hfin, w.add_nothing] at h'
  exact h'

/-- A read that leaves the marks where they were took nothing. -/
theorem View.Delivers.untaken {c c' : Connection} {data : Bytes}
    (h : c.view.Delivers w peer taken)
    (h' : c'.view.Delivers w peer (Function.update taken id (taken id ++ data)))
    (hmarks : c'.marks id = c.marks id) : c'.view.Delivers w peer taken := by
  have hnone : data = [] := by
    unfold Connection.marks at hmarks
    cases hs' : c'.streams.streams[id]? with
    | none =>
        have htaken := h'.gathers.unknown id hs'
        rw [Function.update_self] at htaken
        exact (List.append_eq_nil_iff.1 htaken).2
    | some s' =>
        rw [hs', Option.map_some, eq_comm, Option.map_eq_some_iff] at hmarks
        obtain ⟨s, hs, heq⟩ := hmarks
        simp only [Prod.mk.injEq] at heq
        have hlength := h.gathers.length id s hs
        have hlength' := h'.gathers.length id s' hs'
        rw [Function.update_self, List.length_append, List.length_append, ← heq.2.2.1,
          ← heq.2.2.2] at hlength'
        rw [List.length_append] at hlength
        exact List.length_eq_zero_iff.1 (by omega)
  rw [hnone, List.append_nil, Function.update_eq_self] at h'
  exact h'

/-! ## The trace -/

/-- What the trace says was written at an end. -/
def writtenBy (trace : List Event) (role : ConnectionRole) : Written :=
  ⟨accepted trace role, finished trace role⟩

/-- A read that reported the end of the stream. -/
def Event.reachesEnd (role : ConnectionRole) (streamId : Nat) (e : Event) : Bool :=
  match e with
  | ⟨r, .readStream id _, some (.read result)⟩ => r == role && id == streamId && result.eof
  | _ => false

/-- A call that neither reads nor writes. -/
def Call.aside : Call → Bool
  | .writeStream _ _ _ | .readStream _ _ => false
  | _ => true

variable {trace : List Event} {other : ConnectionRole} {reply : Option Reply}

theorem accepted_concat (trace : List Event) (e : Event) :
    accepted (trace ++ [e]) role id = accepted trace role id ++ e.accepted role id := by
  unfold accepted
  rw [List.flatMap_append, List.flatMap_singleton]

theorem returned_concat (trace : List Event) (e : Event) :
    returned (trace ++ [e]) role id = returned trace role id ++ e.returned role id := by
  unfold returned
  rw [List.flatMap_append, List.flatMap_singleton]

theorem finished_concat (trace : List Event) (e : Event) :
    finished (trace ++ [e]) role id = (finished trace role id || e.finishes role id) := by
  unfold finished
  rw [List.any_append, List.any_cons, List.any_nil, Bool.or_false]

/-- An event that is no write that answered adds nothing to what was written. -/
theorem writtenBy_same {e : Event}
    (h : ∀ id, e.accepted role id = [] ∧ e.finishes role id = false) :
    writtenBy (trace ++ [e]) role = writtenBy trace role := by
  unfold writtenBy
  congr 1
  · funext id
    rw [accepted_concat, (h id).1, List.append_nil]
  · funext id
    rw [finished_concat, (h id).2, Bool.or_false]

theorem writtenBy_write {data : Bytes} {fin : Bool} (reply : Reply) :
    writtenBy (trace ++ [⟨role, .writeStream id data fin, some reply⟩]) role =
      (writtenBy trace role).add id data fin := by
  have haccepted : ∀ i, (⟨role, .writeStream id data fin, some reply⟩ : Event).accepted role i =
      if role = role ∧ id = i then data else [] := fun _ => rfl
  have hfinishes : ∀ i, (⟨role, .writeStream id data fin, some reply⟩ : Event).finishes role i =
      (role == role && id == i && fin) := fun _ => rfl
  unfold writtenBy Written.add
  congr 1
  · funext i
    rw [accepted_concat, haccepted]
    by_cases hi : i = id
    · rw [hi, Function.update_self, if_pos ⟨rfl, rfl⟩]
    · rw [Function.update_of_ne hi, if_neg fun h => hi h.2.symm, List.append_nil]
  · funext i
    rw [finished_concat, hfinishes, beq_self_eq_true, Bool.true_and]
    by_cases hi : i = id
    · rw [hi, Function.update_self, beq_self_eq_true, Bool.true_and]
    · rw [Function.update_of_ne hi, beq_false_of_ne (Ne.symm hi), Bool.false_and, Bool.or_false]

theorem returned_read {maxLen : Nat} (r : ReadResult) :
    returned (trace ++ [⟨role, .readStream id maxLen, some (.read r)⟩]) role =
      Function.update (returned trace role) id (returned trace role id ++ r.data) := by
  have hreturned : ∀ i, (⟨role, .readStream id maxLen, some (.read r)⟩ : Event).returned role i =
      if role = role ∧ id = i then r.data else [] := fun _ => rfl
  funext i
  rw [returned_concat, hreturned]
  by_cases hi : i = id
  · rw [hi, Function.update_self, if_pos ⟨rfl, rfl⟩]
  · rw [Function.update_of_ne hi, if_neg fun h => hi h.2.symm, List.append_nil]

theorem reachesEnd_read {maxLen i : Nat} {r : ReadResult}
    (h : (⟨role, .readStream id maxLen, some (.read r)⟩ : Event).reachesEnd role i = true) :
    id = i ∧ r.eof = true := by
  have h : (role == role && id == i && r.eof) = true := h
  rw [Bool.and_eq_true, Bool.and_eq_true, beq_iff_eq] at h
  exact ⟨beq_iff_eq.1 h.1.2, h.2⟩

/-- What happens at one end is not counted for the other. -/
theorem Event.elsewhere {call : Call} (h : other ≠ role) (id : Nat) :
    (⟨role, call, reply⟩ : Event).accepted other id = [] ∧
      (⟨role, call, reply⟩ : Event).finishes other id = false ∧
      (⟨role, call, reply⟩ : Event).returned other id = [] ∧
      (⟨role, call, reply⟩ : Event).reachesEnd other id = false := by
  have hne : role ≠ other := Ne.symm h
  refine ⟨?_, ?_, ?_, ?_⟩
  · unfold Event.accepted
    split
    · next heq =>
        cases heq
        exact if_neg fun h => hne h.1
    · rfl
  · unfold Event.finishes
    split
    · next heq =>
        cases heq
        rw [beq_false_of_ne hne]
        rfl
    · rfl
  · unfold Event.returned
    split
    · next heq =>
        cases heq
        exact if_neg fun h => hne h.1
    · rfl
  · unfold Event.reachesEnd
    split
    · next heq =>
        cases heq
        rw [beq_false_of_ne hne]
        rfl
    · rfl

theorem Event.aside {call : Call} (h : call.aside = true) (role : ConnectionRole)
    (reply : Option Reply) (id : Nat) :
    (⟨role, call, reply⟩ : Event).accepted role id = [] ∧
      (⟨role, call, reply⟩ : Event).finishes role id = false ∧
      (⟨role, call, reply⟩ : Event).returned role id = [] ∧
      (⟨role, call, reply⟩ : Event).reachesEnd role id = false := by
  cases call with
  | writeStream id data fin => cases h
  | readStream id maxLen => cases h
  | _ => exact ⟨rfl, rfl, rfl, rfl⟩

theorem cause_aside {call : Call} (h : call.aside = true) :
    (∀ id maxLen, cause suite c call.op ≠ .reading id maxLen) ∧
      ∀ id data fin, cause suite c call.op ≠ .writing id data fin := by
  cases call with
  | writeStream id data fin => cases h
  | readStream id maxLen => cases h
  | _ =>
      refine ⟨fun _ _ heq => ?_, fun _ _ _ heq => ?_⟩
      · cases heq
      · cases heq

theorem cause_receive {call : Call} {p : Packet} (h : cause suite c call.op = .packet p) :
    call = .receive p := by
  cases call with
  | receive packet =>
      cases h
      rfl
  | _ => cases h

/-! ## The system -/

/-- A read or a write that fails leaves its stream where it was. -/
def Net.FailsClean (suite : Suite) (net : Net) : ConnectionRole × Action → Prop
  | (role, .writeStream id data fin) =>
      Core.FailsClean suite (net.conn role) (.writeStream id data fin) id
  | (role, .readStream id maxLen) =>
      Core.FailsClean suite (net.conn role) (.readStream id maxLen) id
  | _ => True

/-- Each end has what the trace says it returned of what the trace says the other
accepted, all that was sent tells what was accepted, and an end of stream that was
reported was one. -/
structure Net.Delivers (net : Net) : Prop where
  ends : ∀ role, (net.conn role).view.Delivers (writtenBy net.trace role)
    (writtenBy net.trace role.peer) (returned net.trace role)
  sent : ∀ role, ∀ p ∈ net.sent role, ∀ f ∈ p.frames, Copies (writtenBy net.trace role) f
  closed : ∀ role id, net.trace.any (Event.reachesEnd role id) = true →
    finished net.trace role.peer id = true ∧
      returned net.trace role id = accepted net.trace role.peer id

theorem View.Delivers.drained (h : c.view.Delivers w peer taken) :
    ({ c with output := [] } : Connection).view.Delivers w peer taken :=
  ⟨⟨h.metered.streams, h.metered.total, h.metered.limit, h.metered.advertised⟩,
    ⟨h.apart.pending, h.apart.stored⟩, h.follows,
    ⟨h.carries.pending, h.carries.queues, h.carries.unacked, nofun⟩, h.gathers.keep rfl⟩

theorem View.Delivers.mono {peer' : Written} (h : v.Delivers w peer taken)
    (hpeer : peer.Grows peer') : v.Delivers w peer' taken :=
  { h with gathers := h.gathers.mono hpeer }

/-- What one call at an end has to bring about for the system to go on as it did. -/
theorem Net.Delivers.perform {net : Net} {call : Call} {w' : Written} {taken' : Nat → Bytes}
    (h : net.Delivers)
    (hafter : (after (Core.perform suite call.op) (net.conn role)).view.Delivers w'
      (writtenBy net.trace role.peer) taken')
    (hwritten : writtenBy (net.perform suite role call).trace role = w')
    (hreturned : returned (net.perform suite role call).trace role = taken')
    (hgrows : (writtenBy net.trace role).Grows w')
    (hextends : ∀ id, returned net.trace role id <+: taken' id)
    (hclosed : ∀ id, (⟨role, call, answer (Core.perform suite call.op) (net.conn role)⟩ :
        Event).reachesEnd role id = true →
      finished net.trace role.peer id = true ∧ taken' id = accepted net.trace role.peer id) :
    (net.perform suite role call).Delivers := by
  have hne : role.peer ≠ role := role.peer_ne
  have hself : (net.perform suite role call).conn role =
      { after (Core.perform suite call.op) (net.conn role) with output := [] } :=
    net.perform_conn_self suite role call
  have hother : (net.perform suite role call).conn role.peer = net.conn role.peer :=
    net.perform_conn_of_ne suite call hne
  have hwritten' : writtenBy (net.perform suite role call).trace role.peer =
      writtenBy net.trace role.peer :=
    writtenBy_same fun id => ⟨(Event.elsewhere hne id).1, (Event.elsewhere hne id).2.1⟩
  have hreturned' : returned (net.perform suite role call).trace role.peer =
      returned net.trace role.peer := by
    funext id
    show returned (net.trace ++ [_]) role.peer id = _
    rw [returned_concat, (Event.elsewhere hne id).2.2.1, List.append_nil]
  have hpeer := h.ends role.peer
  rw [role.peer_peer] at hpeer
  refine ⟨fun role' => ?_, fun role' p hp => ?_, fun role' id hend => ?_⟩
  · rcases role.eq_or_peer role' with rfl | rfl
    · rw [hself, hwritten, hwritten', hreturned]
      exact hafter.drained
    · rw [hother, role.peer_peer, hwritten, hwritten', hreturned']
      exact hpeer.mono hgrows
  · rcases role.eq_or_peer role' with rfl | rfl
    · rw [hwritten]
      rw [Net.perform_sent_self] at hp
      rcases List.mem_append.1 hp with hp | hp
      · exact fun f hf => (h.sent role' p hp f hf).mono hgrows
      · exact fun f hf => ((hafter.carries.sends p hp).2 f hf).1
    · rw [hwritten']
      rw [Net.perform_sent_of_ne suite net call hne] at hp
      exact h.sent role.peer p hp
  · have hend : (net.trace ++ [(⟨role, call, answer (Core.perform suite call.op) (net.conn role)⟩ :
        Event)]).any (Event.reachesEnd role' id) = true := hend
    rw [List.any_append, List.any_cons, List.any_nil, Bool.or_false, Bool.or_eq_true] at hend
    rcases role.eq_or_peer role' with rfl | rfl
    · have hbytes : accepted (net.perform suite role' call).trace role'.peer id =
          accepted net.trace role'.peer id := congrArg (·.bytes id) hwritten'
      have hfinished : finished (net.perform suite role' call).trace role'.peer id =
          finished net.trace role'.peer id := congrArg (·.ended id) hwritten'
      rw [hbytes, hfinished, hreturned]
      rcases hend with hend | hend
      · obtain ⟨hfin, hall⟩ := h.closed role' id hend
        have hprefix : taken' id <+: accepted net.trace role'.peer id :=
          hafter.gathers.taken_prefix id
        have hle := (hextends id).length_le
        rw [hall] at hle
        exact ⟨hfin, hprefix.eq_of_length_le hle⟩
      · exact hclosed id hend
    · rw [(Event.elsewhere hne id).2.2.2] at hend
      obtain ⟨hfin, hall⟩ := h.closed role.peer id (hend.resolve_right Bool.false_ne_true)
      rw [role.peer_peer] at hfin hall ⊢
      obtain ⟨hfin', hsame⟩ := (hgrows id).2 hfin
      have hbytes : accepted (net.perform suite role call).trace role id = w'.bytes id :=
        congrArg (·.bytes id) hwritten
      have hfinished : finished (net.perform suite role call).trace role id = w'.ended id :=
        congrArg (·.ended id) hwritten
      rw [hbytes, hfinished, hreturned', hsame]
      exact ⟨hfin', hall⟩

/-- Every call keeps the system so, as long as calls that fail leave their stream
where it was. -/
theorem Net.Delivers.call {net : Net} {call : Call} (h : net.Delivers)
    (harrive : ∀ packet, call = .receive packet → net.CanArrive role packet)
    (hclean : ∀ id, (∃ data fin, call = .writeStream id data fin) ∨
      (∃ maxLen, call = .readStream id maxLen) → Core.FailsClean suite (net.conn role) call id) :
    (net.perform suite role call).Delivers := by
  have hend := h.ends role
  have haside : call.aside = true → (net.perform suite role call).Delivers := by
    intro haside
    have hnone := @Event.aside call haside role
    refine h.perform ?_ (writtenBy_same fun id => ⟨(hnone _ id).1, (hnone _ id).2.1⟩) ?_ (.refl _)
      (fun _ => List.prefix_refl _) fun id hreach => ?_
    · obtain ⟨hread, hwrite⟩ := @cause_aside suite (net.conn role) call haside
      refine (perform_edits suite call.op (net.conn role)).delivers hread hwrite ?_ hend
      intro p hk f hf
      rcases harrive p (cause_receive hk) with hsent | ⟨cookie, rfl⟩
      · exact h.sent role.peer p hsent f hf
      · rw [List.mem_singleton.1 hf]
        trivial
    · funext id
      show returned (net.trace ++ [_]) role id = _
      rw [returned_concat, (hnone _ id).2.2.1, List.append_nil]
    · rw [(hnone _ id).2.2.2] at hreach
      cases hreach
  cases call with
  | writeStream id data fin =>
      have hfailed := hclean id (.inl ⟨data, fin, rfl⟩)
      have hrun : Ends (Core.perform suite (.writeStream id data fin)) (net.conn role)
          (fun _ c' => (writtenBy net.trace role).ended id = false ∧
            c'.view.Delivers ((writtenBy net.trace role).add id data fin)
              (writtenBy net.trace role.peer) (returned net.trace role)) _ :=
        ends_map.2 (writeStream_delivers hend)
      have hnone : ∀ reply id',
          (⟨role, .writeStream id data fin, reply⟩ : Event).returned role id' =
          [] ∧ (⟨role, .writeStream id data fin, reply⟩ : Event).reachesEnd role id' = false :=
        fun _ _ => ⟨rfl, rfl⟩
      have hreturned : returned (net.perform suite role (.writeStream id data fin)).trace role =
          returned net.trace role := by
        funext id'
        show returned (net.trace ++ [_]) role id' = _
        rw [returned_concat, (hnone _ id').1, List.append_nil]
      cases hreply : answer (Core.perform suite (.writeStream id data fin)) (net.conn role) with
      | some reply =>
          obtain ⟨hopen, hdelivers⟩ := hrun.answer hreply
          refine h.perform hdelivers ?_ hreturned (Written.grows_add hopen)
            (fun _ => List.prefix_refl _) fun id' hreach => ?_
          · have htrace : (net.perform suite role (.writeStream id data fin)).trace =
                net.trace ++ [⟨role, .writeStream id data fin, some reply⟩] :=
              congrArg (fun r => net.trace ++ [⟨role, .writeStream id data fin, r⟩]) hreply
            rw [htrace]
            exact writtenBy_write reply
          · rw [(hnone _ id').2] at hreach
            cases hreach
      | none =>
          obtain ⟨_, hcases⟩ := hrun.unanswered hreply
          have hdelivers : (after (Core.perform suite (.writeStream id data fin))
              (net.conn role)).view.Delivers (writtenBy net.trace role)
                (writtenBy net.trace role.peer) (returned net.trace role) := by
            rcases hcases with hview | ⟨hopen, hwritten⟩
            · rw [hview]
              exact hend
            · exact hend.unwritten hwritten (hfailed hreply) hopen
          refine h.perform hdelivers ?_ hreturned (.refl _) (fun _ => List.prefix_refl _)
            fun id' hreach => ?_
          · have htrace : (net.perform suite role (.writeStream id data fin)).trace =
                net.trace ++ [⟨role, .writeStream id data fin, none⟩] :=
              congrArg (fun r => net.trace ++ [⟨role, .writeStream id data fin, r⟩]) hreply
            rw [htrace]
            exact writtenBy_same fun _ => ⟨rfl, rfl⟩
          · rw [(hnone _ id').2] at hreach
            cases hreach
  | readStream id maxLen =>
      have hfailed := hclean id (.inr ⟨maxLen, rfl⟩)
      have hrun : Ends (Core.perform suite (.readStream id maxLen)) (net.conn role)
          (fun reply c' => ∃ r : ReadResult, reply = .read r ∧
            c'.view.Delivers (writtenBy net.trace role) (writtenBy net.trace role.peer)
              (Function.update (returned net.trace role) id
                (returned net.trace role id ++ r.data)) ∧
            (r.eof = true → finished net.trace role.peer id = true ∧
              returned net.trace role id ++ r.data = accepted net.trace role.peer id)) _ :=
        ends_map.2 ((readStream_delivers hend).mono (fun r _ hr => ⟨r, rfl, hr⟩) fun _ _ hr => hr)
      have hwritten : writtenBy (net.perform suite role (.readStream id maxLen)).trace role =
          writtenBy net.trace role := writtenBy_same fun _ => ⟨rfl, rfl⟩
      cases hreply : answer (Core.perform suite (Call.readStream id maxLen).op) (net.conn role) with
      | some reply =>
          obtain ⟨r, rfl, hdelivers, heof⟩ := hrun.answer hreply
          have htrace : (net.perform suite role (.readStream id maxLen)).trace =
              net.trace ++ [⟨role, .readStream id maxLen, some (.read r)⟩] :=
            congrArg (fun r => net.trace ++ [⟨role, .readStream id maxLen, r⟩]) hreply
          refine h.perform hdelivers hwritten ?_ (.refl _) (fun id' => ?_) fun id' hreach => ?_
          · rw [htrace]
            exact returned_read r
          · by_cases hi : id' = id
            · rw [hi, Function.update_self]
              exact List.prefix_append _ _
            · rw [Function.update_of_ne hi]
          · rw [hreply] at hreach
            obtain ⟨rfl, hend⟩ := reachesEnd_read hreach
            rw [Function.update_self]
            exact heof hend
      | none =>
          obtain ⟨_, hcases⟩ := hrun.unanswered hreply
          have htrace : (net.perform suite role (.readStream id maxLen)).trace =
              net.trace ++ [⟨role, .readStream id maxLen, none⟩] :=
            congrArg (fun r => net.trace ++ [⟨role, .readStream id maxLen, r⟩]) hreply
          have hdelivers : (after (Core.perform suite (.readStream id maxLen))
              (net.conn role)).view.Delivers (writtenBy net.trace role)
                (writtenBy net.trace role.peer) (returned net.trace role) := by
            rcases hcases with hview | ⟨data, hread⟩
            · rw [hview]
              exact hend
            · exact hend.untaken hread (hfailed hreply)
          refine h.perform hdelivers hwritten ?_ (.refl _) (fun _ => List.prefix_refl _)
            fun id' hreach => ?_
          · funext id'
            rw [htrace, returned_concat]
            exact List.append_nil _
          · rw [hreply] at hreach
            cases hreach
  | _ => exact haside rfl

/-- A fresh end has written and read nothing. -/
theorem fresh_delivers {config : ConnectionConfig} (h : Fresh suite role config c)
    (peer : Written) :
    c.view.Delivers ⟨fun _ => [], fun _ => false⟩ peer fun _ => [] := by
  obtain ⟨_, id, handshake, hunused, hedits⟩ := fresh_edits h
  have happart := @initial_apart suite role id config _ hunused
  refine hedits.delivers nofun nofun nofun ⟨initial_metered suite role id config handshake, happart,
    fun _ => rfl, ⟨fun q hq => ?_, nofun, nofun, nofun⟩, ⟨fun _ _ => rfl, nofun, nofun, nofun⟩⟩
  cases hf : q.frame with
  | streamData d => exact absurd hf (happart.pending q hq d)
  | _ => trivial

theorem start_delivers {clientConfig serverConfig : ConnectionConfig} {client server : Connection}
    (hclient : Fresh suite .client clientConfig client)
    (hserver : Fresh suite .server serverConfig server) : (Net.start client server).Delivers := by
  refine ⟨fun role => ?_, fun role p hp f hf => ?_, fun role id hend => ?_⟩
  · cases role with
    | client => exact (fresh_delivers hclient _).drained
    | server => exact (fresh_delivers hserver _).drained
  · cases role with
    | client =>
        have hfresh := fresh_delivers hclient ⟨fun _ => [], fun _ => false⟩
        exact ((hfresh.carries.sends p hp).2 f hf).1
    | server =>
        have hfresh := fresh_delivers hserver ⟨fun _ => [], fun _ => false⟩
        exact ((hfresh.carries.sends p hp).2 f hf).1
  · cases hend

/-- Whatever the network does, what is read off a stream at one end is where what
was accepted at the other starts, and the end of a stream is reported when it was
written and all before it has been read; as long as calls that fail leave their
stream where it was. -/
theorem reads_what_was_written (suite : Suite) {clientConfig serverConfig : ConnectionConfig}
    {client server : Connection} (hclient : Fresh suite .client clientConfig client)
    (hserver : Fresh suite .server serverConfig server)
    (actions : List (ConnectionRole × Action))
    (hclean : Meets (Net.step suite) (Net.FailsClean suite) (Net.start client server) actions)
    (role : ConnectionRole) (id : Nat) :
    let trace := ((Net.start client server).run suite actions).trace
    returned trace role id <+: accepted trace role.peer id ∧
      (trace.any (Event.reachesEnd role id) = true →
        finished trace role.peer id = true ∧
        returned trace role id = accepted trace role.peer id) := by
  intro trace
  have hdelivers : ((Net.start client server).run suite actions).Delivers := by
    refine hclean.run (start_delivers hclient hserver) fun net action h hclean => ?_
    obtain ⟨role, action⟩ := action
    unfold Net.step
    split
    · next call hcall =>
        refine h.call (fun packet heq => ?_) fun id hstream => ?_
        · subst heq
          exact Net.call_arrives hcall
        · rcases hstream with ⟨data, fin, rfl⟩ | ⟨maxLen, rfl⟩
          · cases Net.call_writes hcall
            exact hclean
          · cases Net.call_reads hcall
            exact hclean
    · exact h
  exact ⟨(hdelivers.ends role).gathers.taken_prefix id, hdelivers.closed role id⟩

instance (suite : Suite) (c : Connection) (call : Call) (id : Nat) :
    Decidable (FailsClean suite c call id) :=
  inferInstanceAs (Decidable (_ → _))

instance Net.decidableFailsClean (suite : Suite) (net : Net) :
    (action : ConnectionRole × Action) → Decidable (net.FailsClean suite action)
  | (role, .writeStream id data fin) =>
      inferInstanceAs
        (Decidable (Core.FailsClean suite (net.conn role) (.writeStream id data fin) id))
  | (role, .readStream id maxLen) =>
      inferInstanceAs (Decidable (Core.FailsClean suite (net.conn role) (.readStream id maxLen) id))
  | (_, .openStream) | (_, .advanceTime _) | (_, .close _ _) | (_, .deliver _)
  | (_, .retry _) => .isTrue trivial

/-- The byte of the client arrives twice and is read, with the end of the stream. -/
theorem reads_what_was_written_sample : ∃ client server,
    Fresh sampleSuite .client {} client ∧ Fresh sampleSuite .server {} server ∧
      let trace := ((Net.start client server).run sampleSuite (sampleTalk ++
        [(.server, .deliver 3), (.server, .deliver 3), (.server, .readStream 0 10)])).trace
      returned trace .server 0 = [97] ∧ finished trace .client 0 = true ∧
        returned trace .server 0 = accepted trace .client 0 := by
  obtain ⟨net, hnet, hp⟩ := of_checks (r := sampleRun {} {} [])
    (p := fun net => decide (Meets (Net.step sampleSuite) (Net.FailsClean sampleSuite) net
        (sampleTalk ++
          [(.server, .deliver 3), (.server, .deliver 3), (.server, .readStream 0 10)])) &&
      let trace := (net.run sampleSuite (sampleTalk ++
        [(.server, .deliver 3), (.server, .deliver 3), (.server, .readStream 0 10)])).trace
      returned trace .server 0 == [97] && trace.any (Event.reachesEnd .server 0))
    (by decide +kernel)
  obtain ⟨client, server, hclient, hserver, rfl⟩ := sampleRun_fresh hnet
  simp only [Bool.and_eq_true, beq_iff_eq, decide_eq_true_eq] at hp
  have hreads := reads_what_was_written sampleSuite hclient hserver _ hp.1 .server 0
  exact ⟨client, server, hclient, hserver, hp.2.1, (hreads.2 hp.2.2).1, (hreads.2 hp.2.2).2⟩

end DartUdp.Core
