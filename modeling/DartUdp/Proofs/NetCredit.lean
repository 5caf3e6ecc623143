import DartUdp.Proofs.ConnCredit
import DartUdp.Proofs.ConnLimit
import DartUdp.Proofs.NetAnswers

/-!
# Senders and the limits of receivers

An end is told how much the other takes: by the hellos, by a limit that is raised,
and by the frame that opens a stream. The first two say what the other end
enforces. A `StreamOpen` does not: the opener puts in it the window it was told
itself, so the end that accepts the stream takes its own window for that of the
opener. Where its own window is larger, it may write more than the opener takes.

So no data is beyond the limits of its receiver as long as no end writes, on a
stream the other opened, what the other has no room for.

The module is for `data_within_limits`. `View.Lends` is the invariant of one end and
`Edit.lends` its rule, `Net.Lends.perform` keeps it at both ends, and
`processStreamData_within` says that data within the limits is not refused for one.
-/

namespace DartUdp.Core

open DartUdp.Lib DartUdp.Udp

variable {suite : Suite} {L : Prop} {k : Cause} {v v' : View} {c : Connection} {id : Nat}
  {s : StreamRecord} {role : ConnectionRole} {own own' other other' room : Nat → Nat}
  {window : Nat} {earlier : List Packet} {x : Exchange}

/-! ## Frames within the limits -/

/-- Data ends where the other end has room, a limit is one of the end's own, and a
stream is opened with the window of the other end. -/
def Fits (own other : Nat → Nat) (window : Nat) : Frame → Prop
  | .streamData d => d.offset + d.data.length ≤ other d.streamId
  | .maxStreamData u => u.maxOffset ≤ own u.streamId
  | .streamOpen o => o.initialReceiveWindow = window
  | _ => True

theorem Fits.mono {f : Frame} (h : Fits own other window f) (hown : ∀ id, own id ≤ own' id)
    (hother : ∀ id, other id ≤ other' id) : Fits own' other' window f := by
  cases f with
  | streamData d => exact Nat.le_trans h (hother d.streamId)
  | maxStreamData u => exact Nat.le_trans h (hown u.streamId)
  | _ => exact h

theorem Hello.fits {f : Frame} (h : Hello f) : Fits own other window f := by
  cases f with
  | streamData d => exact h.elim
  | maxStreamData u => exact h.elim
  | streamOpen o => exact h.elim
  | _ => trivial

theorem Own.fits {f : Frame} (h : Own f) : Fits own other window f := by
  cases f with
  | streamData d => exact h.elim
  | maxStreamData u => exact h.elim
  | streamOpen o => exact h.elim
  | _ => trivial

/-! ## The limit on a stream -/

/-- A limit on a stream was there before, or comes from a hello, a `StreamOpen` or a
`MaxStreamData`. -/
theorem Edit.windowOf_from (e : Edit suite L k v v') (h : v'.windowOf id = some window) :
    v.windowOf id = some window ∨ v.state = .established ∧ window = v.peerWindow ∨
      ∃ p, k = .packet p ∧
        ((∃ o, .streamOpen o ∈ p.frames ∧ o.streamId = id ∧ window = o.initialReceiveWindow) ∨
          ∃ u window₀, .maxStreamData u ∈ p.frames ∧ u.streamId = id ∧
            v.windowOf id = some window₀ ∧ window = max window₀ u.maxOffset) := by
  have hnew : ∀ {i : Nat} {s : StreamRecord}, (v.put i s).windowOf id = some window →
      v.windowOf id = some window ∨ i = id ∧ s.send.maxOffset = window := by
    intro i s hput
    by_cases hi : id = i
    · rw [hi, View.windowOf, View.put_self] at hput
      exact .inr ⟨hi.symm, Option.some.inj hput⟩
    · rw [View.windowOf, View.put_of_ne hi] at hput
      exact .inl hput
  have hkeep : ∀ {i : Nat} {s₀ s₁ : StreamRecord}, v.streams i = some s₀ →
      (v.put i s₁).windowOf id = some window → s₁.send.maxOffset = s₀.send.maxOffset →
      v.windowOf id = some window := fun hs hput hsame => (windowOf_put hs hsame).symm.trans hput
  cases e with
  | opened i hk hst hs =>
      refine (hnew h).imp_right fun heq => .inl ⟨hst, ?_⟩
      exact heq.2.symm
  | accept p o hk hf hst hs =>
      refine (hnew h).imp_right fun heq => .inr ⟨p, hk, .inl ⟨o, hf, heq.1, ?_⟩⟩
      exact heq.2.symm
  | write i data fin s mb mc n send hk hst hs hopen hw =>
      exact .inl (hkeep hs h (write_maxOffset hw))
  | read i maxLen s hk hs =>
      obtain ⟨_, _, _, heq⟩ := v.read_eq i maxLen s
      rw [heq] at h
      have hput : (v.put i (s.read maxLen).2).windowOf id = some window := h
      exact .inl (hkeep hs hput rfl)
  | insert p d s newBytes n recv hk hf hst hs =>
      have hput : (v.put d.streamId { s with recv := recv }).windowOf id = some window := h
      exact .inl (hkeep hs hput rfl)
  | reject p d s e recv hl hk hf hs => exact .inl (hkeep hs h rfl)
  | finish i s hs => exact .inl (hkeep hs h rfl)
  | limit p u s hk hf hs =>
      refine (hnew h).imp_right fun heq =>
        .inr ⟨p, hk, .inr ⟨u, s.send.maxOffset, hf, heq.1, ?_, ?_⟩⟩
      · rw [View.windowOf, ← heq.1, hs]
        rfl
      · exact heq.2.symm
  | reset p r s hk hf hs => exact .inl (hkeep hs h rfl)
  | lose n count sp =>
      rw [windowOf_putBackAll] at h
      exact .inl h
  | drop n count m sp =>
      rw [windowOf_putBackAll] at h
      exact .inl h
  | emit q v₁ sp ht =>
      obtain ⟨_, heq⟩ := v₁.account_eq q
      rw [heq] at h
      exact .inl (ht.windowOf.symm.trans h)
  | pass q v₁ ht =>
      obtain ⟨_, heq⟩ := v₁.account_eq q
      rw [heq] at h
      exact .inl (ht.windowOf.symm.trans h)
  | lost q v₁ next hl ht => exact .inl (ht.windowOf.symm.trans h)
  | back q v₁ ht =>
      rw [windowOf_putBack] at h
      exact .inl (ht.windowOf.symm.trans h)
  | _ => exact .inl h

/-! ## One end -/

/-- The window an end brings into the exchange. -/
def Exchange.streamWindow (x : Exchange) (role : ConnectionRole) : Nat :=
  (x.party role).config.initialStreamWindow

/-- An end never has a larger limit than the other has room, on its own streams and
where its own window is not the larger one. It counts what it sent, and what it
sent is within the connection's limit. -/
structure View.Lends (suite : Suite) (x : Exchange) (role : ConnectionRole) (room : Nat → Nat)
    (earlier : List Packet) (v : View) : Prop where
  joins : v.Joins suite x role
  keyed : v.Keyed suite (x.Offers suite)
  guarded : v.Guarded
  metered : v.Metered
  limits : v.Limits
  windows : ∀ id window, v.windowOf id = some window →
    id % 2 = role.localStreamParity ∨ x.streamWindow role ≤ x.streamWindow role.peer →
    window ≤ room id
  emits : v.Emits (x.party role.peer).config.initialConnectionWindow
    (emittedBytes (earlier ++ v.sends))
  single : ∀ p ∈ v.sends, ∃ f, p.frames = [f]

/-- What an end hears of streams is right: a limit is one the other end has, and a
stream it opens is one of its own, with the window it was told. -/
def Heeds (x : Exchange) (role : ConnectionRole) (room : Nat → Nat) (k : Cause) : Prop :=
  ∀ p, k = .packet p → (∀ u, .maxStreamData u ∈ p.frames → u.maxOffset ≤ room u.streamId) ∧
    ∀ o, .streamOpen o ∈ p.frames →
      o.initialReceiveWindow = x.streamWindow role ∧ o.streamId % 2 = role.peerStreamParity

theorem ConnectionRole.parity_ne (role : ConnectionRole) :
    role.peerStreamParity ≠ role.localStreamParity := by
  cases role with
  | client => decide
  | server => decide

/-- The limit of the connection is the window of the other end. -/
theorem View.Lends.limit (h : v.Lends suite x role room earlier) (hs : (v.streams id).isSome) :
    v.send.connectionMaxOffset = (x.party role.peer).config.initialConnectionWindow := by
  obtain ⟨keys, hkeys⟩ := Option.isSome_iff_exists.1 (h.guarded.streams id hs).1
  exact (h.joins.agreed keys (h.keyed.active keys hkeys)).limit

theorem View.Lends.peerWindow (h : v.Lends suite x role room earlier)
    (hst : v.state = .established) : v.peerWindow = x.streamWindow role.peer := by
  obtain ⟨keys, hkeys⟩ := Option.isSome_iff_exists.1 (h.joins.shaken (.inl hst))
  exact (h.joins.agreed keys hkeys).window

theorem Edit.lends (e : Edit suite L k v v') (hdrain : k ≠ .draining)
    (h : v.Lends suite x role room earlier) (hears : Hears suite x role k)
    (heeds : Heeds x role room k) (hroom : ∀ id, x.streamWindow role.peer ≤ room id)
    (hmax : (x.party role).config.maxDatagramSize ≤ 0xffff) :
    v'.Lends suite x role room earlier := by
  refine ⟨e.joins h.joins hears hmax,
    e.keyed h.keyed (fun _ => x.oneKey) fun p hello hk _ hf => ?_, e.guarded h.guarded,
    e.metered h.metered, e.limits h.limits, fun id window hwindow hown => ?_,
    e.emits hdrain h.guarded.apart (fun id hs => (h.limit hs).le) h.emits, fun p hp => ?_⟩
  · exact hears.offers p hello hk hf
  · rcases e.windowOf_from hwindow with hold | ⟨hst, rfl⟩ | ⟨p, hk, hframe⟩
    · exact h.windows id window hold hown
    · rw [h.peerWindow hst]
      exact hroom id
    · obtain ⟨hlimits, hopens⟩ := heeds p hk
      rcases hframe with ⟨o, ho, rfl, rfl⟩ | ⟨u, window₀, hu, rfl, hold, rfl⟩
      · obtain ⟨hsame, hparity⟩ := hopens o ho
        rw [hsame]
        rcases hown with hown | hle
        · exact absurd (hparity.symm.trans hown) role.parity_ne
        · exact Nat.le_trans hle (hroom o.streamId)
      · exact Nat.max_le.2 ⟨h.windows _ _ hold hown, hlimits u hu⟩
  · rcases e.sends_new hp with hold | ⟨a, ha⟩ | ⟨q, _, _, rfl, _⟩
    · exact h.single p hold
    · exact ⟨_, ha⟩
    · exact ⟨_, rfl⟩

/-- The frames keep to the limits, unless a call brings data or makes a limit. -/
theorem Edit.fits (e : Edit suite L k v v') (hread : ∀ id maxLen, k ≠ .reading id maxLen)
    (hwrite : ∀ id data fin, k ≠ .writing id data fin) (h : v.Lends suite x role room earlier)
    (hc : v.Carries (Fits v.roomOn room (x.streamWindow role.peer))) :
    v'.Carries (Fits v'.roomOn room (x.streamWindow role.peer)) := by
  have hgrown : v.Carries (Fits v'.roomOn room (x.streamWindow role.peer)) :=
    hc.mono fun f hf => hf.mono (fun _ => e.roomOn_le h.metered) fun _ => le_rfl
  refine e.carries hgrown ⟨fun f hf => hf.fits, fun f hf => (h.limits.stored f hf).fits,
    fun a ha => trivial, fun _ hst id _ => ?_, fun id maxLen s m hk => absurd hk (hread id maxLen),
    fun id data fin s mb mc n send hk => absurd hk (hwrite id data fin)⟩
  exact h.peerWindow hst

theorem Edits.lends (e : Edits suite L k v v') (hdrain : k ≠ .draining)
    (hread : ∀ id maxLen, k ≠ .reading id maxLen) (hwrite : ∀ id data fin, k ≠ .writing id data fin)
    (h : v.Lends suite x role room earlier)
    (hc : v.Carries (Fits v.roomOn room (x.streamWindow role.peer))) (hears : Hears suite x role k)
    (heeds : Heeds x role room k) (hroom : ∀ id, x.streamWindow role.peer ≤ room id)
    (hmax : (x.party role).config.maxDatagramSize ≤ 0xffff) :
    v'.Lends suite x role room earlier ∧
      v'.Carries (Fits v'.roomOn room (x.streamWindow role.peer)) := by
  induction e with
  | refl => exact ⟨h, hc⟩
  | tail _ e ih =>
      exact ⟨e.lends hdrain ih.1 hears heeds hroom hmax, e.fits hread hwrite ih.1 ih.2⟩

theorem Edits.roomOn_le (e : Edits suite L k v v') (hm : v.Metered) :
    v.roomOn id ≤ v'.roomOn id := by
  have hall : v'.Metered ∧ v.roomOn id ≤ v'.roomOn id := by
    induction e with
    | refl => exact ⟨hm, le_rfl⟩
    | tail _ e ih => exact ⟨e.metered ih.1, Nat.le_trans ih.2 (e.roomOn_le ih.1)⟩
  exact hall.2

/-! ## What one end is asked to do -/

/-- The stream lets a write of the length through. -/
def StreamRecord.Admits (s : StreamRecord) (length : Nat) : Prop :=
  s.state = .opened ∧ s.send.finRequested = false ∧
    s.send.nextOffset + length ≤ s.send.maxOffset

/-- What arrives is one frame within the limits, and a write on a stream of the other
end is one the other end has room for. -/
def Call.Proper (x : Exchange) (role : ConnectionRole) (room : Nat → Nat) (v : View) : Call → Prop
  | .receive p => ∃ f, p.frames = [f] ∧ Fits room v.roomOn (x.streamWindow role) f
  | .writeStream id data _ =>
      id % 2 = role.localStreamParity ∨ x.streamWindow role ≤ x.streamWindow role.peer ∨
        ∀ s, v.streams id = some s → s.Admits data.length →
          s.send.nextOffset + data.length ≤ room id
  | _ => True

/-- A `StreamOpen` for a stream that is not one of the peer's is refused before
anything is made of it. -/
theorem onDatagram_refuses {p : Packet} {o : StreamOpen} (hframes : p.frames = [.streamOpen o])
    (hparity : o.streamId % 2 ≠ c.role.peerStreamParity) :
    Does suite (.packet { p with frames := [] }) (onDatagram suite p) c := by
  simp only [onDatagram]
  rw [Does, ends_bind, ends_get]
  refine Does.ite (fun _ => .refl) fun _ => Does.ite (fun _ => .refl) fun _ => ?_
  refine Does.bind Does.onTimers fun _ c₁ h₁ =>
    Does.bind (recordReceived_does { p with frames := [] }) fun isNew c₂ h₂ => ?_
  have hrole : c₂.role = c.role := h₂.constant.1.trans h₁.constant.1
  rw [hframes]
  refine Does.bind (ends_applyAcks_one rfl .refl) fun _ c₃ h₃ => ?_
  have hrole₃ : c₃.role = c.role := h₃.constant.1.trans hrole
  refine Does.ite (fun _ => Does.bind (ends_processFrames_one rfl ?_) fun _ _ _ => ?_) fun _ => ?_
  · simp only [processFrame, processStreamOpen, ends_steps, ends_ensureData, hrole₃]
    exact ⟨fun _ => ⟨fun _ => .refl, fun h => absurd hparity h⟩, fun _ => .refl⟩
  · rw [← hframes]
    exact acknowledge_does p
  · rw [← hframes]
    exact acknowledge_does p

theorem View.Lends.read {maxLen : Nat} (h : v.Lends suite x role room earlier)
    (hc : v.Carries (Fits v.roomOn room (x.streamWindow role.peer))) (hs : v.streams id = some s)
    (hroom : ∀ id, x.streamWindow role.peer ≤ room id)
    (hmax : (x.party role).config.maxDatagramSize ≤ 0xffff) :
    (v.read id maxLen s).Lends suite x role room earlier ∧
      (v.read id maxLen s).Carries
        (Fits (v.read id maxLen s).roomOn room (x.streamWindow role.peer)) := by
  have e : Edit suite True (.reading id maxLen) v (v.read id maxLen s) := .read id maxLen s rfl hs
  refine ⟨e.lends nofun h nofun nofun hroom hmax, ?_⟩
  have hgrown := hc.mono fun f hf => hf.mono (fun _ => e.roomOn_le h.metered) fun _ => le_rfl
  refine hgrown.read hs fun m hm => ?_
  obtain ⟨_, _, _, heq⟩ := v.read_eq id maxLen s
  have hlimit : (v.read id maxLen s).roomOn id = (s.read maxLen).2.recv.maxOffset := by
    rw [heq]
    exact View.roomOn_of_some (v.put_self id _)
  have hnew : (s.read maxLen).2.recv.maxOffset = m := congrArg (Option.getD · s.recv.maxOffset) hm
  show m ≤ (v.read id maxLen s).roomOn id
  rw [hlimit, hnew]

theorem View.Lends.write {n maxBuffer maxChunk : Nat} {data : Bytes} {fin : Bool}
    {send : SendStream} (h : v.Lends suite x role room earlier)
    (hc : v.Carries (Fits v.roomOn room (x.streamWindow role.peer))) (hs : v.streams id = some s)
    (hst : v.state = .established) (hopen : s.state = .opened)
    (hw : s.send.write data fin maxBuffer maxChunk = .ok (n, send))
    (hproper : (Call.writeStream id data fin).Proper x role room v)
    (hroom : ∀ id, x.streamWindow role.peer ≤ room id)
    (hmax : (x.party role).config.maxDatagramSize ≤ 0xffff) :
    (v.put id { s with send := send }).Lends suite x role room earlier ∧
      (v.put id { s with send := send }).Carries
        (Fits (v.put id { s with send := send }).roomOn room (x.streamWindow role.peer)) := by
  have e : Edit suite True (.writing id data fin) v (v.put id { s with send := send }) :=
    .write id data fin s maxBuffer maxChunk n send rfl hst hs hopen hw
  refine ⟨e.lends nofun h nofun nofun hroom hmax, ?_⟩
  have hgrown := hc.mono fun f hf => hf.mono (fun _ => e.roomOn_le h.metered) fun _ => le_rfl
  obtain ⟨_, hfin, _⟩ := SendStream.write_ok hw
  obtain ⟨hle, hqueue⟩ := SendStream.write_within hw
  have hwindow : v.windowOf id = some s.send.maxOffset := by
    rw [View.windowOf, hs]
    rfl
  have hend : s.send.nextOffset + data.length ≤ room id := by
    rcases hproper with hown | hsmall | hadmits
    · exact Nat.le_trans hle (h.windows id _ hwindow (.inl hown))
    · exact Nat.le_trans hle (h.windows id _ hwindow (.inr hsmall))
    · exact hadmits s hs ⟨hopen, hfin, hle⟩
  refine hgrown.put fun item hitem => ?_
  rcases hqueue item hitem with hold | hnew
  · exact hgrown.queues id s hs item hold
  · exact Nat.le_trans hnew.1 hend

theorem perform_lends {call : Call} (h : c.view.Lends suite x role room earlier)
    (hc : c.view.Carries (Fits c.view.roomOn room (x.streamWindow role.peer)))
    (hears : Hears suite x role (cause suite c call.op)) (hproper : call.Proper x role room c.view)
    (hroom : ∀ id, x.streamWindow role.peer ≤ room id)
    (hmax : (x.party role).config.maxDatagramSize ≤ 0xffff) :
    (after (perform suite call.op) c).view.Lends suite x role room earlier ∧
      (after (perform suite call.op) c).view.Carries
        (Fits (after (perform suite call.op) c).view.roomOn room (x.streamWindow role.peer)) := by
  have hflush : ∀ {L : Prop} {v v' : View}, Edits suite L .other v v' →
      v.Lends suite x role room earlier ∧
        v.Carries (Fits v.roomOn room (x.streamWindow role.peer)) →
      v'.Lends suite x role room earlier ∧
        v'.Carries (Fits v'.roomOn room (x.streamWindow role.peer)) := fun e hv =>
    e.lends nofun nofun nofun hv.1 hv.2 nofun nofun hroom hmax
  cases call with
  | openStream =>
      exact (perform_edits suite .openStream c).lends nofun nofun nofun h hc nofun nofun hroom hmax
  | advanceTime elapsed =>
      exact (perform_edits suite (.advanceTime elapsed) c).lends nofun nofun nofun h hc nofun nofun
        hroom hmax
  | close errorCode reason =>
      exact (perform_edits suite (.close errorCode reason) c).lends nofun nofun nofun h hc nofun
        nofun hroom hmax
  | readStream id maxLen =>
      refine Ends.after (P := fun c' => c'.view.Lends suite x role room earlier ∧
          c'.view.Carries (Fits c'.view.roomOn room (x.streamWindow role.peer)))
        (ends_map.2 ((readStream_ends suite id maxLen).mono (fun r c' hr => ?_) fun _ c' hr => ?_))
      · obtain ⟨s, hs, _, _, hedits⟩ := hr
        exact hflush hedits (h.read hc hs hroom hmax)
      · rcases hr with ⟨hview, _⟩ | ⟨s, hs, _, hedits⟩
        · rw [hview]
          exact ⟨h, hc⟩
        · exact hflush hedits (h.read hc hs hroom hmax)
  | writeStream id data fin =>
      refine Ends.after (P := fun c' => c'.view.Lends suite x role room earlier ∧
          c'.view.Carries (Fits c'.view.roomOn room (x.streamWindow role.peer)))
        (ends_map.2 ((writeStream_ends suite id data fin).mono (fun n c' hn => ?_)
          fun _ c' hn => ?_))
      · obtain ⟨s, send, _, _, hs, hopen, hst, hw, hedits⟩ := hn
        exact hflush hedits (h.write hc hs hst hopen hw hproper hroom hmax)
      · rcases hn with hview | ⟨s, send, _, _, n, hs, hopen, hst, hw, hedits⟩
        · rw [hview]
          exact ⟨h, hc⟩
        · exact hflush hedits (h.write hc hs hst hopen hw hproper hroom hmax)
  | receive p =>
      obtain ⟨f, hframes, hf⟩ := hproper
      by_cases hbad : ∃ o, f = .streamOpen o ∧ o.streamId % 2 ≠ role.peerStreamParity
      · obtain ⟨o, rfl, hparity⟩ := hbad
        have hplays : c.role = role := h.joins.plays
        have hdoes : Does suite (.packet { p with frames := [] })
            (perform suite (.onDatagram p)) c :=
          Does.bind (onDatagram_refuses hframes (by rwa [hplays])) fun _ _ _ => .refl
        have hedits : Edits suite True (.packet { p with frames := [] }) c.view
            (after (perform suite (.onDatagram p)) c).view :=
          Ends.after (P := fun c' => Edits suite True _ c.view c'.view)
            (hdoes.mono (fun _ _ he => he.mono) fun _ _ he => he)
        refine hedits.lends nofun nofun nofun h hc (fun p' hk f hf => ?_) (fun p' hk => ?_)
          hroom hmax
        · cases hk
          cases hf
        · cases hk
          exact ⟨nofun, nofun⟩
      · refine (perform_edits suite (.onDatagram p) c).lends nofun nofun nofun h hc hears
          (fun p' hk => ?_) hroom hmax
        cases hk
        rw [hframes]
        refine ⟨fun u hu => ?_, fun o ho => ?_⟩
        · cases List.mem_singleton.1 hu
          exact hf
        · cases List.mem_singleton.1 ho
          exact ⟨hf, not_not.1 fun hparity => hbad ⟨o, rfl, hparity⟩⟩

/-! ## Data within the limits -/

section Within

variable {r : ReceiveStream} {offset : Nat} {data : Bytes} {fin : Bool} {d : StreamData}

/-- The error is not about a limit. -/
def CoreError.Unlimited : CoreError → Prop
  | .flowControlViolation _ => False
  | _ => True

theorem CoreError.Internal.unlimited {e : CoreError} (h : e.Internal) : e.Unlimited := by
  cases e with
  | flowControlViolation streamId => exact h.elim
  | _ => trivial

theorem newBytes_within (h : r.Sound) (hle : offset + data.length ≤ r.maxOffset) :
    (∀ n, r.newBytes offset data = .ok n → n = r.missing offset data) ∧
      ∀ e, r.newBytes offset data = .error e → e.Unlimited := by
  by_cases hmax : offset + data.length ≤ u64Max
  · rw [newBytes_eq h (le_min hle hmax)]
    exact ⟨fun n hn => (Except.ok.inj hn).symm, nofun⟩
  · have hnone : checkedAdd offset data.length = none := if_neg hmax
    unfold ReceiveStream.newBytes
    rw [hnone]
    refine ⟨nofun, fun e he => ?_⟩
    cases he
    trivial

theorem insertRanges_raises (ranges : List (Nat × Nat)) (r : ReceiveStream) :
    Ends (insertRanges offset data ranges) r (fun _ _ => True) fun e _ => e.Unlimited := by
  induction ranges generalizing r with
  | nil => trivial
  | cons range rest ih =>
      simp only [insertRanges, ends_steps]
      exact ⟨fun _ => trivial, fun _ => ih _⟩

theorem deliverLoop_raises (fuel : Nat) (r : ReceiveStream) :
    Ends (deliverLoop fuel) r (fun _ _ => True) fun e _ => e.Unlimited := by
  induction fuel generalizing r with
  | zero => trivial
  | succ fuel ih =>
      simp only [deliverLoop, ends_bind, ends_get]
      split
      · trivial
      · simp only [ends_bind, ends_modify]
        split
        · trivial
        · simp only [ends_bind, ends_modify]
          exact ih _

theorem insertSegment_within (hle : offset + data.length ≤ r.maxOffset) :
    Ends (insertSegment offset data fin) r (fun _ _ => True) fun e _ => e.Unlimited := by
  have hfinal : ∀ stop e, r.checkFinal stop fin = .error e → e.Unlimited := by
    intro stop e he
    unfold ReceiveStream.checkFinal at he
    repeat' split at he
    all_goals cases he
    all_goals trivial
  simp only [insertSegment, ends_bind, ends_get]
  split
  · trivial
  · next stop hstop =>
      obtain ⟨_, rfl⟩ := checkedAdd_eq_some.1 hstop
      simp only [ends_steps, ends_ofExcept, deliverContiguous]
      refine ⟨fun hgt => absurd hle (Nat.not_le.2 hgt), fun _ => ⟨fun final _ => ?_, fun e he =>
        hfinal _ e he⟩⟩
      exact (insertRanges_raises _ _).mono (fun _ _ _ => deliverLoop_raises _ _) fun _ _ h => h

theorem newDataBytes_within {m : StreamManager} {room : Nat}
    (hm : ∀ s, m.streams[d.streamId]? = some s →
      s.recv.Sound ∧ d.offset + d.data.length ≤ s.recv.maxOffset) :
    Ends (newDataBytes d room) m
      (fun n m' => m' = m ∧ ∃ s, m.streams[d.streamId]? = some s ∧
        n ≤ s.recv.missing d.offset d.data)
      fun e _ => e.Unlimited := by
  simp only [newDataBytes, ends_steps, ends_record, ends_ofExcept]
  refine ⟨fun s hs => ?_, fun _ => trivial⟩
  obtain ⟨hok, herror⟩ := newBytes_within (hm s hs).1 (hm s hs).2
  refine ⟨fun _ => ⟨trivial, s, hs, Nat.zero_le _⟩, fun _ => ⟨fun n hn => ⟨fun _ => trivial,
    fun _ => ⟨trivial, s, hs, (hok n hn).le⟩⟩, herror⟩⟩

theorem insertData_within {m : StreamManager}
    (hm : ∀ s, m.streams[d.streamId]? = some s →
      d.offset + d.data.length ≤ s.recv.maxOffset) :
    Ends (insertData d) m (fun _ _ => True) fun e _ => e.Unlimited := by
  simp only [insertData, ends_steps, ends_record, ends_zoom]
  refine ⟨fun s hs => ⟨fun _ => trivial, fun _ => ?_⟩, fun _ => trivial⟩
  exact (insertSegment_within (hm s hs)).mono (fun _ _ _ => ⟨fun _ _ => trivial, fun _ => trivial⟩)
    fun _ _ h => h

/-- The connection has room for the data, on its stream and in all. -/
def Connection.HasRoomFor (c : Connection) (d : StreamData) : Prop :=
  ∀ s, c.streams.streams[d.streamId]? = some s →
    s.recv.Sound ∧ d.offset + d.data.length ≤ s.recv.maxOffset ∧
      c.connectionReceive.uniqueReceived + s.recv.missing d.offset d.data ≤
        min c.connectionReceive.maxOffset u64Max

theorem Connection.HasRoomFor.congr {c' : Connection} (h : c.HasRoomFor d)
    (hsame : c'.streams = c.streams ∧ c'.connectionReceive = c.connectionReceive) :
    c'.HasRoomFor d := by
  unfold Connection.HasRoomFor
  rw [hsame.1, hsame.2]
  exact h

/-- To note a packet as received is no matter of streams. -/
theorem recordReceived_frame (p : Packet) (c : Connection) :
    Ends (recordReceived p) c
      (fun _ c' => c'.streams = c.streams ∧ c'.connectionReceive = c.connectionReceive)
      fun _ _ => False := by
  simp only [recordReceived, ends_steps, ends_modifyTransport]
  exact ⟨fun _ => ⟨trivial, trivial⟩, fun _ => ⟨trivial, trivial⟩⟩

theorem processStreamData_within {packetType : PacketType} (h : c.HasRoomFor d) :
    Raises CoreError.Unlimited (processStreamData packetType d) c := by
  simp only [Raises, processStreamData, ends_bind, ends_ensureData, ends_get, ends_onStreams]
  refine ⟨fun _ => ?_, fun _ => trivial⟩
  refine (newDataBytes_within fun s hs => ⟨(h s hs).1, (h s hs).2.1⟩).mono (fun n m hn => ?_)
    fun _ _ he => he
  obtain ⟨rfl, s, hs, hle⟩ := hn
  have hfits := (h s hs).2.2
  have hadd : checkedAdd c.connectionReceive.uniqueReceived n =
      some (c.connectionReceive.uniqueReceived + n) := checkedAdd_eq_some.2 ⟨by omega, rfl⟩
  have hcheck : c.connectionReceive.check none (c.connectionReceive.uniqueReceived + n) n =
      .ok () := by
    unfold ReceiveFlowControl.check
    rw [if_neg (by omega), hadd]
    rfl
  have haccount : ∀ e, c.connectionReceive.account none n ≠ .error e := by
    intro e he
    unfold ReceiveFlowControl.account at he
    rw [hadd] at he
    cases he
  rw [hadd]
  simp only [ends_bind, ends_ofExcept, ends_onStreams, hcheck]
  refine ⟨fun _ _ => ?_, fun e he => by cases he⟩
  refine (insertData_within fun s hs => (h s hs).2.1).mono (fun status m _ => ?_) fun _ _ he => he
  refine ⟨fun flow _ => ?_, fun e he => absurd he (haccount e)⟩
  simp only [ends_steps]
  exact ⟨fun _ => trivial, fun _ => ⟨fun _ => ⟨fun _ => trivial, fun _ => trivial⟩,
    fun _ => ⟨fun _ => trivial, fun _ => trivial⟩⟩⟩

theorem scheduleIdle_raises (delay : Nat) (t : TimerState) :
    Ends (scheduleIdle delay) t (fun _ _ => True) fun e _ => e.Internal := by
  simp only [scheduleIdle, ends_bind, ends_modify]
  exact (schedule_raises _ _ _).mono (fun _ _ _ => trivial) fun _ _ h => h

theorem scheduleAck_raises : Raises CoreError.Internal scheduleAck c := by
  simp only [scheduleAck, Raises, ends_steps, ends_modifyTransport]
  refine ⟨fun _ => trivial, fun _ => ⟨fun _ => onTimers_raises fun t => ?_, fun _ => trivial⟩⟩
  simp only [scheduleAckTimer, ends_steps]
  exact ⟨fun _ => (schedule_raises _ _ _).mono (fun _ _ _ => trivial) fun _ _ h => h,
    fun _ => trivial⟩

theorem acknowledge_raises (p : Packet) :
    Raises CoreError.Internal (do
      if p.frames.any Frame.isAckEliciting then scheduleAck
      flush) c := by
  simp only [Raises, ends_ite]
  exact ⟨fun _ => scheduleAck_raises.bind fun _ _ => flush_raises, fun _ => flush_raises⟩

/-- Data that the connection has room for is not refused for a limit. -/
theorem onDatagram_within {p : Packet} (hframes : p.frames = [.streamData d])
    (h : c.HasRoomFor d) : Raises CoreError.Unlimited (onDatagram suite p) c := by
  simp only [Raises, onDatagram]
  rw [ends_bind, ends_get, ends_ite]
  refine ⟨fun _ => trivial, fun _ => ?_⟩
  rw [ends_ite]
  refine ⟨fun _ => trivial, fun _ => ?_⟩
  rw [ends_bind, onTimers, ends_zoom]
  refine (scheduleIdle_raises _ _).mono (fun _ t _ => ?_) fun _ _ he => he.unlimited
  have hend : ∀ c : Connection, Raises CoreError.Unlimited (do
      if p.frames.any Frame.isAckEliciting then scheduleAck
      flush) c := fun c => (acknowledge_raises p).mono (fun _ _ h => h) fun _ _ he => he.unlimited
  have hrest : ∀ (isNew : Bool) (c' : Connection), c'.HasRoomFor d →
      Raises CoreError.Unlimited (do
        applyAcks p.frames
        if isNew then processFrames suite p.packetType p.frames
        if p.frames.any Frame.isAckEliciting then scheduleAck
        flush) c' := by
    intro isNew c' h'
    rw [Raises, ends_bind]
    rw [hframes] at hend ⊢
    refine ends_applyAcks_one rfl ?_
    rw [ends_ite]
    refine ⟨fun _ => ?_, fun _ => hend c'⟩
    rw [ends_bind]
    refine ends_processFrames_one rfl ?_
    exact (processStreamData_within h').mono (fun _ c₁ _ => hend c₁) fun _ _ he => he
  rw [ends_bind]
  exact (recordReceived_frame p _).mono (fun isNew c' hsame => hrest isNew c' (h.congr hsame))
    fun _ _ hno => hno.elim

end Within

/-! ## The system -/

/-- A write on a stream of the other end is one the other end has room for. -/
def Net.Modest (net : Net) : ConnectionRole × Action → Prop
  | (role, .writeStream id data _) =>
      id % 2 = role.localStreamParity ∨
        (net.conn role).config.initialStreamWindow ≤
          (net.conn role.peer).config.initialStreamWindow ∨
        ∀ s ∈ (net.conn role).streams.streams[id]?, s.Admits data.length →
          s.send.nextOffset + data.length ≤ (net.conn role.peer).view.roomOn id
  | _ => True

/-- Each end keeps to the limits of the other, in its state and in all it sent, and
what has come in at an end has gone out at the other. -/
structure Net.Lends (suite : Suite) (x : Exchange) (net : Net) : Prop where
  keeps : net.Keeps suite x
  lends : ∀ role, (net.conn role).view.Lends suite x role (net.conn role.peer).view.roomOn
    (net.sent role)
  carries : ∀ role, (net.conn role).view.Carries
    (Fits (net.conn role).view.roomOn (net.conn role.peer).view.roomOn (x.streamWindow role.peer))
  sent : ∀ role, ∀ p ∈ net.sent role, ∃ f, p.frames = [f] ∧
    Fits (net.conn role).view.roomOn (net.conn role.peer).view.roomOn (x.streamWindow role.peer) f
  collects : ∀ role, ∃ got, (net.conn role).view.Collects got ∧
    got ⊆ emittedBytes (net.sent role.peer)

@[simp] theorem ConnectionRole.peer_peer (role : ConnectionRole) : role.peer.peer = role := by
  cases role <;> rfl

theorem ConnectionRole.peer_ne (role : ConnectionRole) : role.peer ≠ role := by
  cases role <;> decide

theorem ConnectionRole.eq_or_peer (role other : ConnectionRole) :
    other = role ∨ other = role.peer := by
  cases role <;> cases other <;> decide

theorem View.Limits.roomOn (h : v.Limits) : v.streamWindow ≤ v.roomOn id := by
  cases hs : v.streams id with
  | none => exact (View.roomOn_of_none hs).ge
  | some s =>
      rw [View.roomOn_of_some hs, (h.known id s hs).2]
      exact (List.foldl_max (a := v.streamWindow)).ge.trans' (Nat.le_max_left _ _)

theorem View.Lends.mono {room' : Nat → Nat} (h : v.Lends suite x role room earlier)
    (hroom : ∀ id, room id ≤ room' id) : v.Lends suite x role room' earlier :=
  { h with
    windows := fun id window hw hown => Nat.le_trans (h.windows id window hw hown) (hroom id) }

/-- The outputs of an end are drained. -/
theorem View.Lends.drained (h : c.view.Lends suite x role room earlier) :
    ({ c with output := [] } : Connection).view.Lends suite x role room
      (earlier ++ packetsOf c.output) := by
  refine ⟨h.joins.drained, h.keyed.keep rfl, ⟨⟨h.guarded.apart.pending, h.guarded.apart.stored⟩,
      h.guarded.established, h.guarded.streams, nofun⟩,
    ⟨h.metered.streams, h.metered.total, h.metered.limit, h.metered.advertised⟩,
    ⟨h.limits.stored, h.limits.silent, h.limits.window, h.limits.advertised, h.limits.limit,
      h.limits.unknown, h.limits.known⟩, h.windows, ?_, nofun⟩
  show View.Emits _ (emittedBytes ((earlier ++ packetsOf c.output) ++ [])) _
  rw [List.append_nil]
  exact h.emits.keep rfl rfl rfl

theorem Net.Lends.window_le {net : Net} (h : net.Lends suite x) (role : ConnectionRole) (id : Nat) :
    x.streamWindow role ≤ (net.conn role).view.roomOn id := by
  have hwindow := (h.lends role).joins.streamWindow
  unfold Exchange.streamWindow
  rw [← hwindow]
  exact (h.lends role).limits.roomOn

/-- What a call brings in has gone out at the other end. -/
theorem Net.Lends.collected {net : Net} (h : net.Lends suite x) {call : Call}
    (harrive : ∀ packet, call = .receive packet → net.CanArrive role packet) :
    ∃ got, (after (Core.perform suite call.op) (net.conn role)).view.Collects got ∧
      got ⊆ emittedBytes (net.sent role.peer) := by
  obtain ⟨got, hgot, hsub⟩ := h.collects role
  obtain ⟨got', hgot', hfrom⟩ :=
    (perform_edits suite call.op (net.conn role)).collects (h.lends role).metered hgot
  refine ⟨got', hgot', fun y hy => ?_⟩
  rcases hfrom y hy with hy | ⟨p, d, hk, hd, hy⟩
  · exact hsub hy
  · have hcall : call = .receive p := by
      cases call with
      | receive packet =>
          cases hk
          rfl
      | _ => cases hk
    rcases harrive p hcall with hsent | ⟨cookie, rfl⟩
    · refine List.mem_toFinset.2 (List.mem_flatMap.2 ⟨p, hsent, List.mem_flatMap.2 ⟨_, hd, ?_⟩⟩)
      exact hy
    · cases List.mem_singleton.1 hd

theorem Net.Lends.perform {net : Net} (h : net.Lends suite x)
    (hmax : ∀ role, (x.party role).config.maxDatagramSize ≤ 0xffff) {call : Call}
    (harrive : ∀ packet, call = .receive packet → net.CanArrive role packet)
    (hmodest : ∀ id data fin, call = .writeStream id data fin →
      net.Modest (role, .writeStream id data fin)) :
    (net.perform suite role call).Lends suite x := by
  have hmetered := (h.lends role).metered
  have hgrown : ∀ id, (net.conn role).view.roomOn id ≤
      (after (Core.perform suite call.op) (net.conn role)).view.roomOn id := fun id =>
    (perform_edits suite call.op (net.conn role)).roomOn_le hmetered
  obtain ⟨hlends, hcarries⟩ :
      (after (Core.perform suite call.op) (net.conn role)).view.Lends suite x role
        (net.conn role.peer).view.roomOn (net.sent role) ∧
      (after (Core.perform suite call.op) (net.conn role)).view.Carries
        (Fits (after (Core.perform suite call.op) (net.conn role)).view.roomOn
          (net.conn role.peer).view.roomOn (x.streamWindow role.peer)) := by
    by_cases hid : ∀ p, call = .receive p → p.connectionId = (net.conn role).id
    · refine perform_lends (h.lends role) (h.carries role) (h.keeps.hears harrive hid) ?_
        (h.window_le role.peer) (hmax role)
      cases call with
      | writeStream id data fin =>
          have hown := (h.lends role).joins.streamWindow
          have hother := (h.lends role.peer).joins.streamWindow
          rcases hmodest id data fin rfl with hparity | hle | hadmits
          · exact .inl hparity
          · refine .inr (.inl ?_)
            unfold Exchange.streamWindow
            rw [← hown, ← hother]
            exact hle
          · exact .inr (.inr hadmits)
      | receive p =>
          rcases harrive p rfl with hsent | ⟨cookie, rfl⟩
          · have hfits := h.sent role.peer p hsent
            rw [role.peer_peer] at hfits
            exact hfits
          · exact ⟨_, rfl, trivial⟩
      | _ => trivial
    · push Not at hid
      obtain ⟨p, rfl, hp⟩ := hid
      rw [show Call.op (.receive p) = .onDatagram p from rfl, onDatagram_mismatch hp]
      exact ⟨h.lends role, h.carries role⟩
  have hcollected := h.collected harrive
  have hne : role.peer ≠ role := role.peer_ne
  have hkeeps := h.keeps.perform hmax harrive
  have hself : (net.perform suite role call).conn role =
      { after (Core.perform suite call.op) (net.conn role) with output := [] } :=
    net.perform_conn_self suite role call
  have hother : (net.perform suite role call).conn role.peer = net.conn role.peer :=
    net.perform_conn_of_ne suite call hne
  constructor
  · exact hkeeps
  · intro role'
    rcases role.eq_or_peer role' with rfl | rfl
    · rw [hself, hother, Net.perform_sent_self]
      exact hlends.drained
    · rw [hother, role.peer_peer, hself, Net.perform_sent_of_ne suite net call hne]
      have hpeer := h.lends role.peer
      rw [role.peer_peer] at hpeer
      exact hpeer.mono hgrown
  · intro role'
    rcases role.eq_or_peer role' with rfl | rfl
    · rw [hself, hother]
      exact ⟨hcarries.pending, hcarries.queues, hcarries.unacked, nofun⟩
    · rw [hother, role.peer_peer, hself]
      have hpeer := h.carries role.peer
      rw [role.peer_peer] at hpeer
      exact hpeer.mono fun f hf => hf.mono (fun _ => le_rfl) hgrown
  · intro role' p hp
    rcases role.eq_or_peer role' with rfl | rfl
    · rw [Net.perform_sent_self] at hp
      rw [hself, hother]
      rcases List.mem_append.1 hp with hp | hp
      · obtain ⟨f, hframes, hf⟩ := h.sent role' p hp
        exact ⟨f, hframes, hf.mono hgrown fun _ => le_rfl⟩
      · obtain ⟨f, hframes⟩ := hlends.single p hp
        refine ⟨f, hframes, ((hcarries.sends p hp).2 f ?_).1⟩
        rw [hframes]
        exact List.mem_singleton_self f
    · rw [Net.perform_sent_of_ne suite net call hne] at hp
      rw [hother, role.peer_peer, hself]
      obtain ⟨f, hframes, hf⟩ := h.sent role.peer p hp
      rw [role.peer_peer] at hf
      exact ⟨f, hframes, hf.mono (fun _ => le_rfl) hgrown⟩
  · intro role'
    rcases role.eq_or_peer role' with rfl | rfl
    · obtain ⟨got, hgot, hsub⟩ := hcollected
      rw [hself, Net.perform_sent_of_ne suite net call hne]
      exact ⟨got, hgot.congr rfl rfl, hsub⟩
    · obtain ⟨got, hgot, hsub⟩ := h.collects role.peer
      rw [role.peer_peer] at hsub
      rw [hother, role.peer_peer, Net.perform_sent_self, emittedBytes_append]
      exact ⟨got, hgot, fun y hy => Finset.mem_union_left _ (hsub hy)⟩

/-! ## The start -/

/-- A fresh connection as an end of any exchange it is a party of. -/
theorem fresh_party {role : ConnectionRole} {config : ConnectionConfig}
    (h : Fresh suite role config c) : ∃ party : Party, party.config = config ∧
      config.maxDatagramSize ≤ 0xffff ∧ ∀ x : Exchange, x.party role = party →
        ∃ handshake : HandshakeState, handshake.Unused party.id config ∧
          ((View.initial suite role party.id config handshake).Joins suite x role ∧
            (View.initial suite role party.id config handshake).Carries (x.Says suite role)) ∧
          Edits suite False .other (View.initial suite role party.id config handshake) c.view := by
  obtain ⟨hvalid, id, handshake, ⟨keyPair, nonce, hunused⟩, hedits⟩ := fresh_edits h
  refine ⟨⟨id, keyPair, nonce, config⟩, rfl, (validate_limits hvalid).1, fun x hx =>
    ⟨handshake, ⟨keyPair, nonce, hunused⟩, ?_, hedits⟩⟩
  have hjoins := @initial_joins suite x role (by rw [hx]; exact (validate_limits hvalid).1)
    handshake (by rw [hx]; exact hunused)
  rw [hx] at hjoins
  exact hjoins

theorem initial_lends {config : ConnectionConfig} {handshake : HandshakeState}
    (hunused : handshake.Unused id config)
    (hjoins : (View.initial suite role id config handshake).Joins suite x role) :
    (View.initial suite role id config handshake).Lends suite x role
        (fun _ => x.streamWindow role.peer) [] ∧
      (View.initial suite role id config handshake).Carries
        (Fits (View.initial suite role id config handshake).roomOn
          (fun _ => x.streamWindow role.peer) (x.streamWindow role.peer)) := by
  have hlimits := initial_limits suite role id config handshake hunused
  refine ⟨⟨hjoins, initial_keyed suite role hunused _, initial_guarded suite role hunused,
    initial_metered suite role id config handshake, hlimits, nofun, ⟨?_, ?_, nofun, nofun⟩, nofun⟩,
    ⟨fun q hq => ?_, nofun, nofun, nofun⟩⟩
  · exact Nat.le_refl 0
  · exact Nat.zero_le _
  · cases role with
    | client =>
        rw [List.mem_singleton.1 hq]
        trivial
    | server => cases hq

/-- Two fresh connections are the ends of an exchange and owe each other nothing. -/
theorem start_lends {clientConfig serverConfig : ConnectionConfig} {client server : Connection}
    (hclient : Fresh suite .client clientConfig client)
    (hserver : Fresh suite .server serverConfig server) :
    ∃ x : Exchange, (∀ role, (x.party role).config.maxDatagramSize ≤ 0xffff) ∧
      (Net.start client server).Lends suite x := by
  obtain ⟨partyc, hconfigc, hmaxc, hpartyc⟩ := fresh_party hclient
  obtain ⟨partys, hconfigs, hmaxs, hpartys⟩ := fresh_party hserver
  let x := Exchange.between partyc partys
  have hmax : ∀ role, (x.party role).config.maxDatagramSize ≤ 0xffff := by
    intro role
    cases role with
    | client => exact hconfigc ▸ hmaxc
    | server => exact hconfigs ▸ hmaxs
  have hends : ∀ role, ∃ c : Connection, (Net.start client server).conn role =
        { c with output := [] } ∧ (Net.start client server).sent role = packetsOf c.output ∧
      c.view.Carries (x.Says suite role) ∧
      c.view.Lends suite x role (fun _ => x.streamWindow role.peer) [] ∧
      c.view.Carries (Fits c.view.roomOn (fun _ => x.streamWindow role.peer)
        (x.streamWindow role.peer)) ∧ c.view.Collects ∅ := by
    intro role
    have hend : ∀ {config : ConnectionConfig} {handshake : HandshakeState} {c : Connection},
        handshake.Unused (x.party role).id config →
        (View.initial suite role (x.party role).id config handshake).Joins suite x role ∧
          (View.initial suite role (x.party role).id config handshake).Carries (x.Says suite role) →
        Edits suite False .other (View.initial suite role (x.party role).id config handshake)
          c.view →
        c.view.Carries (x.Says suite role) ∧
          c.view.Lends suite x role (fun _ => x.streamWindow role.peer) [] ∧
          c.view.Carries (Fits c.view.roomOn (fun _ => x.streamWindow role.peer)
            (x.streamWindow role.peer)) ∧ c.view.Collects ∅ := by
      intro config handshake c hunused hjoins hedits
      obtain ⟨hlends, hfits⟩ := initial_lends hunused hjoins.1
      have hcollects : (View.initial suite role (x.party role).id config handshake).Collects ∅ :=
        ⟨rfl, fun y hy => absurd hy (Finset.notMem_empty y), nofun⟩
      obtain ⟨got, hgot, hfrom⟩ := hedits.collects hlends.metered hcollects
      have hnone : got = ∅ := by
        refine Finset.eq_empty_of_forall_notMem fun y hy => ?_
        rcases hfrom y hy with hy | ⟨p, d, hk, _⟩
        · exact Finset.notMem_empty y hy
        · cases hk
      rw [hnone] at hgot
      have hfinal := hedits.lends nofun nofun nofun hlends hfits nofun nofun
        (fun _ => Nat.le_refl _) (hmax role)
      exact ⟨(hedits.joins_carries hjoins.1 hjoins.2 nofun (hmax role)).2, hfinal.1, hfinal.2, hgot⟩
    cases role with
    | client =>
        obtain ⟨handshake, hunused, hjoins, hedits⟩ := hpartyc x rfl
        exact ⟨client, rfl, rfl, hend hunused hjoins hedits⟩
    | server =>
        obtain ⟨handshake, hunused, hjoins, hedits⟩ := hpartys x rfl
        exact ⟨server, rfl, rfl, hend hunused hjoins hedits⟩
  have hroom : ∀ role id, x.streamWindow role ≤
      ((Net.start client server).conn role).view.roomOn id := by
    intro role id
    obtain ⟨c, hc, _, _, hlends, _⟩ := hends role
    rw [hc]
    unfold Exchange.streamWindow
    rw [← hlends.drained.joins.streamWindow]
    exact hlends.drained.limits.roomOn
  refine ⟨x, hmax, ⟨⟨fun role => ?_, fun role => ?_, fun role => ?_, fun role p hp => ?_⟩,
    fun role => ?_, fun role => ?_, fun role p hp => ?_, fun role => ?_⟩⟩
  all_goals obtain ⟨c, hc, hsent, hcarries, hlends, hfits, hcollects⟩ := hends role
  · rw [hc]
    exact hlends.drained.joins
  · rw [hc]
    exact hlends.drained.keyed
  · rw [hc]
    exact ⟨hcarries.pending, hcarries.queues, hcarries.unacked, nofun⟩
  · rw [hsent] at hp
    obtain ⟨hid, hsaid⟩ := hcarries.sends p hp
    exact ⟨hid.trans hlends.joins.id, hsaid⟩
  · rw [hc, hsent]
    exact hlends.drained.mono (hroom role.peer)
  · have hgrown := hfits.mono fun f hf => hf.mono (fun _ => le_rfl) (hroom role.peer)
    rw [hc]
    exact ⟨hgrown.pending, hgrown.queues, hgrown.unacked, nofun⟩
  · rw [hsent] at hp
    obtain ⟨f, hframes⟩ := hlends.single p hp
    have hgrown := hfits.mono fun f hf => hf.mono (fun _ => le_rfl) (hroom role.peer)
    refine ⟨f, hframes, ?_⟩
    rw [hc]
    refine ((hgrown.sends p hp).2 f ?_).1
    rw [hframes]
    exact List.mem_singleton_self f
  · rw [hc]
    exact ⟨∅, hcollects.congr rfl rfl, Finset.empty_subset _⟩

/-! ## No violation -/

theorem Net.call_arrives {net : Net} {action : Action} {p : Packet}
    (h : net.call role action = some (.receive p)) : net.CanArrive role p := by
  cases action with
  | deliver index =>
      obtain ⟨q, hq, heq⟩ := Option.map_eq_some_iff.1 h
      cases heq
      exact .inl (List.mem_of_getElem? hq)
  | retry cookie =>
      cases h
      exact .inr ⟨cookie, rfl⟩
  | _ => cases h

theorem Net.call_reads {net : Net} {action : Action} {maxLen : Nat}
    (h : net.call role action = some (.readStream id maxLen)) : action = .readStream id maxLen := by
  cases action with
  | readStream id maxLen =>
      cases h
      rfl
  | deliver index =>
      obtain ⟨_, _, heq⟩ := Option.map_eq_some_iff.1 h
      cases heq
  | _ => cases h

theorem Net.call_writes {net : Net} {action : Action} {data : Bytes} {fin : Bool}
    (h : net.call role action = some (.writeStream id data fin)) :
    action = .writeStream id data fin := by
  cases action with
  | writeStream id data fin =>
      cases h
      rfl
  | deliver index =>
      obtain ⟨_, _, heq⟩ := Option.map_eq_some_iff.1 h
      cases heq
  | _ => cases h

theorem Net.Lends.hasRoomFor {net : Net} (h : net.Lends suite x) {p : Packet} {d : StreamData}
    (hp : p ∈ net.sent role.peer) (hframes : p.frames = [.streamData d]) :
    (net.conn role).HasRoomFor d := by
  intro s hs
  have hown := h.lends role
  have hpeer := h.lends role.peer
  obtain ⟨got, hgot, hsub⟩ := h.collects role
  have hroom : (net.conn role).view.roomOn d.streamId = s.recv.maxOffset := View.roomOn_of_some hs
  refine ⟨(hown.metered.streams _ s hs).sound, ?_, ?_⟩
  · obtain ⟨f, hf, hfits⟩ := h.sent role.peer p hp
    cases List.singleton_inj.1 (hframes.symm.trans hf)
    rw [role.peer_peer] at hfits
    rw [← hroom]
    exact hfits
  · have hbytes : got ∪ (positionsOf d).toFinset ⊆
        emittedBytes (net.sent role.peer ++ (net.conn role.peer).view.sends) := by
      rw [emittedBytes_append]
      refine (Finset.union_subset hsub fun y hy => ?_).trans Finset.subset_union_left
      refine List.mem_toFinset.2 (List.mem_flatMap.2 ⟨p, hp, List.mem_flatMap.2 ⟨_, ?_,
        (List.mem_toFinset.1 hy : y ∈ framePositions (.streamData d))⟩⟩)
      rw [hframes]
      exact List.mem_singleton_self _
    have hcard := Finset.card_le_card hbytes
    have hcount := hpeer.emits.count
    have hlimit := hpeer.emits.limit
    rw [role.peer_peer, ← hown.joins.connectionWindow] at hlimit
    have hreceive : (net.conn role).config.initialConnectionWindow ≤
        (net.conn role).connectionReceive.maxOffset :=
      hown.limits.limit.ge.trans' (Nat.le_max_left _ _)
    have hnew := hgot.card hs
    have hlimit : (net.conn role.peer).view.send.connectionSentOffset ≤
        min (net.conn role).config.initialConnectionWindow u64Max := hlimit
    show (net.conn role).view.receive.uniqueReceived + _ ≤ _
    omega

/-- As long as no end writes, on a stream of the other, beyond the room there, no
data that an end sends is ever refused for a limit. -/
theorem data_within_limits (suite : Suite) {clientConfig serverConfig : ConnectionConfig}
    {client server : Connection} (hclient : Fresh suite .client clientConfig client)
    (hserver : Fresh suite .server serverConfig server)
    (actions : List (ConnectionRole × Action))
    (hmodest : Meets (Net.step suite) Net.Modest (Net.start client server) actions)
    (role : ConnectionRole) {p : Packet}
    (hp : p ∈ ((Net.start client server).run suite actions).sent role.peer)
    (hdata : CarriesData p) (streamId : Option Nat) :
    failure (perform suite (.onDatagram p))
        (((Net.start client server).run suite actions).conn role) ≠
      some (.flowControlViolation streamId) := by
  obtain ⟨x, hmax, hstart⟩ := start_lends hclient hserver
  have hlends : ((Net.start client server).run suite actions).Lends suite x := by
    refine hmodest.run hstart fun net action h hmodest => ?_
    obtain ⟨role, action⟩ := action
    unfold Net.step
    split
    · next call hcall =>
        refine h.perform hmax (fun packet heq => ?_) fun id data fin heq => ?_
        · subst heq
          exact Net.call_arrives hcall
        · subst heq
          cases Net.call_writes hcall
          exact hmodest
    · exact h
  obtain ⟨f, hframes, _⟩ := hlends.sent role.peer p hp
  obtain ⟨d, hd⟩ := hdata
  rw [hframes] at hd
  cases List.mem_singleton.1 hd
  have hraises : Raises CoreError.Unlimited (perform suite (.onDatagram p))
      (((Net.start client server).run suite actions).conn role) :=
    (onDatagram_within hframes (hlends.hasRoomFor hp hframes)).bind fun _ _ => trivial
  intro hfail
  obtain ⟨_, hunlimited⟩ := hraises.failed hfail
  exact hunlimited

instance (s : StreamRecord) (length : Nat) : Decidable (s.Admits length) :=
  inferInstanceAs (Decidable (_ ∧ _))

instance Net.decidableModest (net : Net) : (action : ConnectionRole × Action) →
    Decidable (net.Modest action)
  | (_, .writeStream _ _ _) => inferInstanceAs (Decidable (_ ∨ _))
  | (_, .openStream) | (_, .readStream _ _) | (_, .advanceTime _) | (_, .close _ _)
  | (_, .deliver _) | (_, .retry _) => .isTrue trivial

/-- A handshake, a stream of the client, and a byte on it from either end. -/
def sampleTalk : List (ConnectionRole × Action) :=
  sampleHandshake ++ [(.client, .openStream), (.client, .writeStream 0 [97] true),
    (.server, .deliver 2), (.server, .writeStream 0 [98] false)]

theorem data_within_limits_sample : ∃ client server,
    Fresh sampleSuite .client {} client ∧ Fresh sampleSuite .server {} server ∧
      ∃ p ∈ ((Net.start client server).run sampleSuite sampleTalk).sent .client,
        p.frames = [.streamData ⟨0, 0, true, [97]⟩] ∧
          failure (perform sampleSuite (.onDatagram p))
              (((Net.start client server).run sampleSuite sampleTalk).conn .server) ≠
            some (.flowControlViolation none) := by
  obtain ⟨net, hnet, hp⟩ := of_checks (r := sampleRun {} {} [])
    (p := fun net => decide (Meets (Net.step sampleSuite) Net.Modest net sampleTalk) &&
      ((net.run sampleSuite sampleTalk).sent .client)[3]? == samplePackets[3]?)
    (by decide +kernel)
  obtain ⟨client, server, hclient, hserver, rfl⟩ := sampleRun_fresh hnet
  simp only [Bool.and_eq_true, beq_iff_eq, decide_eq_true_eq] at hp
  have hsent := List.mem_of_getElem? hp.2
  exact ⟨client, server, hclient, hserver, _, hsent, rfl,
    data_within_limits sampleSuite hclient hserver sampleTalk hp.1 .server hsent
      ⟨_, List.mem_singleton_self _⟩ none⟩

/-- A server with the larger window writes what a client with ten bytes of room does
not take. -/
example : checks (sampleRun { initialStreamWindow := 10 } {} (sampleHandshake ++
      [(.client, .openStream), (.server, .deliver 2),
        (.server, .writeStream 0 (List.replicate 20 7) false)]))
    (fun net => ((net.sent .server).getLast?.bind fun p =>
        failure (perform sampleSuite (.onDatagram p)) (net.conn .client)) ==
      some (.flowControlViolation (some 0))) = true := by
  decide +kernel

end DartUdp.Core
