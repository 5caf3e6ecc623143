import DartUdp.Proofs.ConnCredit
import DartUdp.Proofs.ConnSend

/-!
# From what was written to what is read

A chunk carries the bytes that stand in what was written at its offset, wherever
it is and however often it goes out, and its FIN says where the writing ended. An
end that hears nothing else has, at every offset it has anything at, the byte that
was written there; so what is read is where what was written starts.

Nothing here needs a chunk to get through. Whatever a failed operation drops, what
is left is still right.

`View.Follows` and `View.Gathers` are the invariants of the two sides, kept by
`Edits.follows` and `Edits.gathers`; `reads_what_was_written` puts those of two
connections together.
-/

namespace DartUdp.Core

open DartUdp.Lib DartUdp.Udp

variable {suite : Suite} {L : Prop} {k : Cause} {v v' : View} {c : Connection} {id : Nat}
  {s s' : StreamRecord} {w w' : Written} {taken : Nat → Bytes}

/-! ## Frames that tell what was written -/

/-- The data stands in what was written, and a FIN is where the writing ended. -/
def Copies (w : Written) : Frame → Prop
  | .streamData d => (pieceOf d).Within (w.bytes d.streamId) ∧
      (d.fin = true → w.ended d.streamId = true ∧
        d.offset + d.data.length = (w.bytes d.streamId).length)
  | _ => True

theorem Hello.copies {f : Frame} (h : Hello f) : Copies w f := by
  cases f with
  | streamData d => exact h.elim
  | _ => trivial

theorem Own.copies {f : Frame} (h : Own f) : Copies w f := by
  cases f with
  | streamData d => exact h.elim
  | _ => trivial

/-- More was written, on the streams that had not ended. -/
def Written.Grows (w w' : Written) : Prop :=
  ∀ id, w.bytes id <+: w'.bytes id ∧
    (w.ended id = true → w'.ended id = true ∧ w'.bytes id = w.bytes id)

theorem Written.Grows.refl (w : Written) : w.Grows w := fun _ =>
  ⟨List.prefix_refl _, fun h => ⟨h, rfl⟩⟩

theorem Written.grows_add {data : Bytes} {fin : Bool} (h : w.ended id = false) :
    w.Grows (w.add id data fin) := by
  intro i
  show w.bytes i <+: Function.update w.bytes id _ i ∧
    (_ → Function.update w.ended id _ i = true ∧ Function.update w.bytes id _ i = _)
  by_cases hi : i = id
  · rw [hi, Function.update_self, h]
    exact ⟨List.prefix_append _ _, nofun⟩
  · rw [Function.update_of_ne hi, Function.update_of_ne hi]
    exact ⟨List.prefix_refl _, fun hended => ⟨hended, rfl⟩⟩

theorem Written.add_nothing (w : Written) (id : Nat) : w.add id [] false = w := by
  unfold Written.add
  rw [List.append_nil, Bool.or_false, Function.update_eq_self, Function.update_eq_self]

theorem Copies.mono {f : Frame} (h : Copies w f) (hw : w.Grows w') : Copies w' f := by
  cases f with
  | streamData d =>
      obtain ⟨hwithin, hfin⟩ := h
      obtain ⟨⟨more, hmore⟩, hended⟩ := hw d.streamId
      refine ⟨?_, fun hd => ?_⟩
      · rw [← hmore]
        exact hwithin.append more
      · obtain ⟨hend, hstop⟩ := hfin hd
        obtain ⟨hend', hsame⟩ := hended hend
        rw [hsame]
        exact ⟨hend', hstop⟩
  | _ => trivial

/-! ## The sending side -/

/-- How far a stream has been written, and whether its end has. -/
def View.mark (v : View) (id : Nat) : Nat × Bool :=
  (v.streams id).elim (0, false) fun s => (s.send.nextOffset, s.send.finRequested)

/-- The streams stand where the writing stands. -/
def View.Follows (v : View) (w : Written) : Prop :=
  ∀ id, v.mark id = ((w.bytes id).length, w.ended id)

theorem View.mark_of_some (hs : v.streams id = some s) :
    v.mark id = (s.send.nextOffset, s.send.finRequested) := by
  unfold View.mark
  rw [hs]
  rfl

theorem View.mark_put {i : Nat}
    (h : v.mark i = (s.send.nextOffset, s.send.finRequested)) :
    (v.put i s).mark id = v.mark id := by
  by_cases hi : id = i
  · rw [hi, View.mark_of_some (v.put_self i s), h]
  · unfold View.mark
    rw [View.put_of_ne hi]

theorem View.mark_putBack (v : View) (frame : Frame) (n : Nat) :
    (v.putBack frame n).mark id = v.mark id := by
  unfold View.putBack
  split
  · split
    · next s hs => exact View.mark_put ((View.mark_of_some hs).trans rfl)
    · rfl
  · rfl

theorem View.mark_putBackAll (v : View) (n : Nat) (frames : List QueuedFrame) :
    (v.putBackAll n frames).mark id = v.mark id := by
  induction frames generalizing v with
  | nil => rfl
  | cons q rest ih => exact (ih _).trans (v.mark_putBack q.frame n)

theorem Takes.mark {q : QueuedFrame} (h : Takes v q v') : v'.mark id = v.mark id := by
  cases h with
  | pending rest h => rfl
  | stream i s item send hs hpop =>
      refine View.mark_put ((View.mark_of_some hs).trans ?_)
      unfold SendStream.popSendable at hpop
      split at hpop
      · cases hpop
      · cases hpop
        rfl

/-- Only a write moves the marks. -/
theorem Edit.mark (e : Edit suite L k v v') (hwrite : ∀ id data fin, k ≠ .writing id data fin) :
    v'.mark id = v.mark id := by
  have hnew : ∀ {i : Nat} {b : Bool} {w window : Nat}, v.streams i = none →
      (v.put i (.new i b w window)).mark id = v.mark id := by
    intro i b w window hs
    refine View.mark_put ?_
    unfold View.mark
    rw [hs]
    rfl
  have hkeep : ∀ {i : Nat} {s₀ s₁ : StreamRecord}, v.streams i = some s₀ →
      (s₁.send.nextOffset, s₁.send.finRequested) = (s₀.send.nextOffset, s₀.send.finRequested) →
      (v.put i s₁).mark id = v.mark id := fun hs hsame =>
    View.mark_put ((View.mark_of_some hs).trans hsame.symm)
  cases e with
  | opened i hk hst hs => exact hnew hs
  | accept p o hk hf hst hs => exact hnew hs
  | write i data fin s mb mc n send hk => exact absurd hk (hwrite i data fin)
  | read i maxLen s hk hs =>
      obtain ⟨_, _, _, heq⟩ := v.read_eq i maxLen s
      rw [heq]
      show (v.put i (s.read maxLen).2).mark id = v.mark id
      exact hkeep hs rfl
  | insert p d s newBytes n recv hk hf hst hs =>
      show (v.put d.streamId { s with recv := recv }).mark id = v.mark id
      exact hkeep hs rfl
  | reject p d s e recv hl hk hf hs => exact hkeep hs rfl
  | finish i s hs => exact hkeep hs rfl
  | limit p u s hk hf hs => exact hkeep hs rfl
  | reset p r s hk hf hs => exact hkeep hs rfl
  | lose n count sp => exact View.mark_putBackAll _ _ _
  | drop n count m sp => exact View.mark_putBackAll _ _ _
  | emit q v₁ sp ht =>
      obtain ⟨_, heq⟩ := v₁.account_eq q
      rw [heq]
      exact ht.mark
  | pass q v₁ ht =>
      obtain ⟨_, heq⟩ := v₁.account_eq q
      rw [heq]
      exact ht.mark
  | lost q v₁ next hl ht => exact ht.mark
  | back q v₁ ht => exact (View.mark_putBack v₁ _ _).trans ht.mark
  | _ => rfl

theorem Edits.mark (e : Edits suite L k v v') (hwrite : ∀ id data fin, k ≠ .writing id data fin) :
    v'.mark id = v.mark id := by
  induction e with
  | refl => rfl
  | tail _ e ih => exact (e.mark hwrite).trans ih

theorem Edits.follows (e : Edits suite L k v v') (hwrite : ∀ id data fin, k ≠ .writing id data fin)
    (h : v.Follows w) : v'.Follows w := fun id => (e.mark hwrite).trans (h id)

/-- A write goes on from where the writing stands. -/
theorem View.Follows.write {data : Bytes} {fin : Bool} {maxBuffer maxChunk n : Nat}
    {send : SendStream} (h : v.Follows w) (hs : v.streams id = some s)
    (hw : s.send.write data fin maxBuffer maxChunk = .ok (n, send)) :
    w.ended id = false ∧ (v.put id { s with send := send }).Follows (w.add id data fin) := by
  obtain ⟨_, hopen, hnext, _, hfin, _⟩ := SendStream.write_ok hw
  have hmark := h id
  rw [View.mark_of_some hs, Prod.mk.injEq] at hmark
  obtain ⟨hlength, hended⟩ := hmark
  refine ⟨hended.symm.trans hopen, fun i => ?_⟩
  show _ = ((Function.update w.bytes id _ i).length, Function.update w.ended id _ i)
  by_cases hi : i = id
  · rw [hi, View.mark_of_some (v.put_self id _), Function.update_self, Function.update_self,
      List.length_append, ← hlength, ← hended, hopen, Bool.false_or]
    exact Prod.ext hnext hfin
  · rw [Function.update_of_ne hi, Function.update_of_ne hi, ← h i]
    unfold View.mark
    rw [View.put_of_ne hi]

/-- The frames still tell what was written, unless a call writes. -/
theorem Edit.copies (e : Edit suite L k v v') (hwrite : ∀ id data fin, k ≠ .writing id data fin)
    (hapart : v.Apart) (h : v.Carries (Copies w)) : v'.Carries (Copies w) :=
  e.carries h ⟨fun _ hf => hf.copies, fun f hf => (hapart.stored f hf).copies, fun _ _ => trivial,
    fun _ _ _ _ => trivial, fun _ _ _ _ _ _ _ => trivial,
    fun id data fin _ _ _ _ _ hk => absurd hk (hwrite id data fin)⟩

theorem Edits.copies (e : Edits suite L k v v') (hwrite : ∀ id data fin, k ≠ .writing id data fin)
    (hapart : v.Apart) (h : v.Carries (Copies w)) : v'.Apart ∧ v'.Carries (Copies w) := by
  induction e with
  | refl => exact ⟨hapart, h⟩
  | tail _ e ih => exact ⟨e.apart ih.1, e.copies hwrite ih.1 ih.2⟩

theorem View.Carries.write {data : Bytes} {fin : Bool} {maxBuffer maxChunk n : Nat}
    {send : SendStream} (h : v.Carries (Copies w)) (hf : v.Follows w) (hs : v.streams id = some s)
    (hw : s.send.write data fin maxBuffer maxChunk = .ok (n, send)) :
    (v.put id { s with send := send }).Carries (Copies (w.add id data fin)) := by
  obtain ⟨hended, hnext⟩ := hf.write hs hw
  have hmark := hf id
  rw [View.mark_of_some hs, Prod.mk.injEq] at hmark
  have hgrows : w.Grows (w.add id data fin) := w.grows_add hended
  have hold := h.mono fun f hf => hf.mono hgrows
  obtain ⟨_, _, _, _, _, _, items, hqueue, hcuts⟩ := SendStream.write_ok hw
  have hwhole : Tiles (({⟨0, w.bytes id⟩} : Multiset (Piece UInt8)) + ↑(items.map (·.piece)))
      (w.bytes id ++ data) :=
    hcuts.tiles _ (w.bytes id) hmark.1.symm (Tiles.nil.concat (w.bytes id))
  refine hold.put fun item hitem => ?_
  have hitem' := hitem
  rw [hqueue] at hitem'
  rcases List.mem_append.1 hitem' with hitem' | hitem'
  · exact hold.queues id s hs item hitem'
  · have hbytes : (w.add id data fin).bytes id = w.bytes id ++ data := Function.update_self ..
    have hends : (w.add id data fin).ended id = (w.ended id || fin) := Function.update_self ..
    have hwithin := hwhole.within item.piece
      (Multiset.mem_add.2 (.inr (Multiset.mem_coe.2 (List.mem_map_of_mem hitem'))))
    refine ⟨?_, fun hfin => ?_⟩
    · show (pieceOf (item.chunk id)).Within ((w.add id data fin).bytes id)
      rw [hbytes]
      exact hwithin
    · show (w.add id data fin).ended id = true ∧
        item.offset + item.data.length = ((w.add id data fin).bytes id).length
      rw [hbytes, hends, List.length_append, ← hmark.1]
      rcases (SendStream.write_within hw).2 item hitem with hmem | ⟨_, hlast⟩
      · have htold := (h.queues id s hs item hmem).2 hfin
        exact absurd (hended.symm.trans htold.1) Bool.false_ne_true
      · obtain ⟨hfin, hstop⟩ := hlast hfin
        rw [hfin, Bool.or_true]
        exact ⟨rfl, hstop⟩

/-! ## The receiving side -/

/-- What was taken off each stream and what is there is what was written there. -/
structure View.Gathers (v : View) (w : Written) (taken : Nat → Bytes) : Prop where
  unknown : ∀ id, v.streams id = none → taken id = []
  length : ∀ id s, v.streams id = some s →
    (taken id ++ s.recv.ready).length = s.recv.nextOffset
  bytes : ∀ id s, v.streams id = some s → ∀ i b, s.recv.Has (taken id) i b →
    (w.bytes id)[i]? = some b
  final : ∀ id s, v.streams id = some s → ∀ f, s.recv.finalOffset = some f →
    w.ended id = true ∧ f = (w.bytes id).length

namespace View.Gathers

theorem mono (h : v.Gathers w taken) (hw : w.Grows w') : v.Gathers w' taken := by
  refine ⟨h.unknown, h.length, fun id s hs i b hb => ?_, fun id s hs f hf => ?_⟩
  · obtain ⟨more, hmore⟩ := (hw id).1
    have hold := h.bytes id s hs i b hb
    obtain ⟨hlt, _⟩ := List.getElem?_eq_some_iff.1 hold
    rw [← hmore, List.getElem?_append_left hlt]
    exact hold
  · obtain ⟨hended, hlength⟩ := h.final id s hs f hf
    obtain ⟨hended', hsame⟩ := (hw id).2 hended
    rw [hsame]
    exact ⟨hended', hlength⟩

theorem keep (h : v.Gathers w taken) (hs : v'.streams = v.streams) : v'.Gathers w taken := by
  refine ⟨?_, ?_, ?_, ?_⟩
  · rw [hs]
    exact h.unknown
  · rw [hs]
    exact h.length
  · rw [hs]
    exact h.bytes
  · rw [hs]
    exact h.final

/-- A record with the same receiving side. -/
theorem put (h : v.Gathers w taken) (hs : v.streams id = some s) (hrecv : s'.recv = s.recv) :
    (v.put id s').Gathers w taken := by
  have hsame : ∀ {i : Nat} {s₁ : StreamRecord}, (v.put id s').streams i = some s₁ →
      ∃ s₀, v.streams i = some s₀ ∧ s₁.recv = s₀.recv := by
    intro i s₁ hs₁
    rcases View.put_cases hs₁ with ⟨rfl, rfl⟩ | ⟨_, hs₁⟩
    · exact ⟨s, hs, hrecv⟩
    · exact ⟨s₁, hs₁, rfl⟩
  refine ⟨fun i hi => h.unknown i (View.put_unknown hi).2, fun i s₁ hs₁ => ?_,
    fun i s₁ hs₁ => ?_, fun i s₁ hs₁ => ?_⟩
  all_goals obtain ⟨s₀, hs₀, heq⟩ := hsame hs₁
  all_goals rw [heq]
  · exact h.length i s₀ hs₀
  · exact h.bytes i s₀ hs₀
  · exact h.final i s₀ hs₀

theorem create {b : Bool} {window window' : Nat} (h : v.Gathers w taken)
    (hs : v.streams id = none) : (v.put id (.new id b window window')).Gathers w taken := by
  refine ⟨fun i hi => h.unknown i (View.put_unknown hi).2, fun i s₁ hs₁ => ?_,
    fun i s₁ hs₁ j byte hb => ?_, fun i s₁ hs₁ f hf => ?_⟩
  all_goals rcases View.put_cases hs₁ with ⟨rfl, rfl⟩ | ⟨_, hs₁⟩
  · rw [h.unknown i hs]
    rfl
  · exact h.length i s₁ hs₁
  · rw [h.unknown i hs] at hb
    rcases hb with hb | hb
    · cases hb
    · exact absurd hb holds_empty
  · exact h.bytes i s₁ hs₁ j byte hb
  · cases hf
  · exact h.final i s₁ hs₁ f hf

theorem outward (h : v.Gathers w taken) (ho : v.Outward v') : v'.Gathers w taken := by
  refine ⟨fun i hi => h.unknown i (ho.unknown.1 hi), fun i s₁ hs₁ => ?_, fun i s₁ hs₁ => ?_,
    fun i s₁ hs₁ => ?_⟩
  all_goals obtain ⟨s₀, hs₀, _, heq, _⟩ := ho.known hs₁
  all_goals rw [heq]
  · exact h.length i s₀ hs₀
  · exact h.bytes i s₀ hs₀
  · exact h.final i s₀ hs₀

/-- Data that is a copy of what was written. -/
theorem insert {d : StreamData} {recv : ReceiveStream} {n : Nat} (h : v.Gathers w taken)
    (hs : v.streams d.streamId = some s) (hsound : s.recv.Sound)
    (hrun : insertSegment d.offset d.data d.fin s.recv = .ok n recv)
    (hd : Copies w (.streamData d)) :
    (v.put d.streamId { s with recv := recv }).Gathers w taken := by
  obtain ⟨hinserts, hfinal⟩ := (insertSegment_ends hsound).ok hrun
  have hlength := h.length d.streamId s hs
  refine ⟨fun i hi => h.unknown i (View.put_unknown hi).2, fun i s₁ hs₁ => ?_,
    fun i s₁ hs₁ j b hb => ?_, fun i s₁ hs₁ f hf => ?_⟩
  all_goals rcases View.put_cases hs₁ with ⟨rfl, rfl⟩ | ⟨_, hs₁⟩
  · exact hinserts.length hlength
  · exact h.length i s₁ hs₁
  · rcases (hinserts.bytes _ hlength j b).1 hb with hb | ⟨_, hat⟩
    · exact h.bytes _ s hs j b hb
    · have hcovers : (pieceOf d).Covers j := getElem?_offset_lt hat
      rw [← hd.1.getElem? hcovers]
      exact hat.2
  · exact h.bytes i s₁ hs₁ j b hb
  · obtain ⟨hleft, hknown⟩ := checkFinal_ok hfinal
    have hf : recv.finalOffset = some f := hf
    rw [hf] at hleft
    split at hleft
    · next hfin =>
        obtain ⟨hended, hstop⟩ := hd.2 hfin
        cases hleft
        exact ⟨hended, hstop⟩
    · exact h.final _ s hs f hleft.symm
  · exact h.final i s₁ hs₁ f hf

/-- What a read returns is taken off the stream. -/
theorem read (h : v.Gathers w taken) (hs : v.streams id = some s) (maxLen : Nat) :
    (v.read id maxLen s).Gathers w
      (Function.update taken id (taken id ++ (s.read maxLen).1.data)) := by
  obtain ⟨_, _, _, heq⟩ := v.read_eq id maxLen s
  rw [heq]
  have hsame : taken id ++ (s.read maxLen).1.data ++ (s.read maxLen).2.recv.ready =
      taken id ++ s.recv.ready := by
    show taken id ++ s.recv.ready.take maxLen ++ s.recv.ready.drop maxLen = _
    rw [List.append_assoc, List.take_append_drop]
  have hput : (v.put id (s.read maxLen).2).Gathers w
      (Function.update taken id (taken id ++ (s.read maxLen).1.data)) := by
    refine ⟨fun i hi => ?_, fun i s₁ hs₁ => ?_, fun i s₁ hs₁ j b hb => ?_,
      fun i s₁ hs₁ f hf => ?_⟩
    · obtain ⟨hne, hnone⟩ := View.put_unknown hi
      rw [Function.update_of_ne hne]
      exact h.unknown i hnone
    all_goals rcases View.put_cases hs₁ with ⟨rfl, rfl⟩ | ⟨hne, hs₁⟩
    · rw [Function.update_self, hsame]
      exact h.length i s hs
    · rw [Function.update_of_ne hne]
      exact h.length i s₁ hs₁
    · rw [Function.update_self] at hb
      refine h.bytes i s hs j b (hb.imp_left fun hb => ?_)
      rwa [hsame] at hb
    · rw [Function.update_of_ne hne] at hb
      exact h.bytes i s₁ hs₁ j b hb
    · exact h.final i s hs f hf
    · exact h.final i s₁ hs₁ f hf
  exact hput.keep rfl

/-- What was taken off a stream is where what was written to it starts. -/
theorem taken_prefix (h : v.Gathers w taken) (id : Nat) : taken id <+: w.bytes id := by
  cases hs : v.streams id with
  | none =>
      rw [h.unknown id hs]
      exact List.nil_prefix
  | some s =>
      refine List.prefix_iff_getElem?.2 fun i hi => h.bytes id s hs i _ (.inl ?_)
      rw [List.getElem?_append_left hi]
      exact List.getElem?_eq_getElem hi

/-- At the end of a stream all that was written has been taken off it. -/
theorem taken_all (h : v.Gathers w taken) (hs : v.streams id = some s)
    (hfin : s.recv.isFinished = true) : w.ended id = true ∧ taken id = w.bytes id := by
  unfold ReceiveStream.isFinished at hfin
  obtain ⟨f, hf, hend⟩ := (Option.any_eq_true _ _).1 hfin
  rw [Bool.and_eq_true, beq_iff_eq, List.isEmpty_iff] at hend
  obtain ⟨hended, hlength⟩ := h.final id s hs f hf
  have htaken := h.length id s hs
  rw [hend.2, List.append_nil] at htaken
  exact ⟨hended, (h.taken_prefix id).eq_of_length (by omega)⟩

end View.Gathers

/-- What comes in keeps to what was written, unless a call reads. -/
theorem Edit.gathers (e : Edit suite L k v v') (hread : ∀ id maxLen, k ≠ .reading id maxLen)
    (hm : v.Metered) (hears : ∀ p, k = .packet p → ∀ f ∈ p.frames, Copies w f)
    (h : v.Gathers w taken) : v'.Gathers w taken := by
  cases e with
  | opened i hk hst hs => exact h.create hs
  | accept p o hk hf hst hs => exact h.create hs
  | write i data fin s mb mc n send hk hst hs => exact h.put hs rfl
  | read i maxLen s hk => exact absurd hk (hread i maxLen)
  | insert p d s newBytes n recv hk hf hst hs hopen hnew hroom hrun =>
      exact (h.insert hs (hm.streams _ s hs).sound hrun (hears p hk _ hf)).keep rfl
  | reject p d s e recv hl hk hf hs hopen hrun =>
      rw [hm.reject hs hrun]
      exact h
  | finish i s hs => exact h.put hs rfl
  | limit p u s hk hf hs => exact h.put hs rfl
  | reset p r s hk hf hs => exact h.put hs rfl
  | lose n count sp =>
      exact View.Gathers.outward (v := v.forget n) (h.keep rfl) (View.outward_putBackAll _ _ _)
  | drop n count m sp =>
      exact View.Gathers.outward (v := v.forget n) (h.keep rfl) (View.outward_putBackAll _ _ _)
  | emit q v₁ sp ht =>
      obtain ⟨_, heq⟩ := v₁.account_eq q
      rw [heq]
      exact (h.outward ht.outward).keep rfl
  | pass q v₁ ht =>
      obtain ⟨_, heq⟩ := v₁.account_eq q
      rw [heq]
      exact (h.outward ht.outward).keep rfl
  | lost q v₁ next hl ht => exact (h.outward ht.outward).keep rfl
  | back q v₁ ht => exact h.outward (ht.outward.trans (v₁.outward_putBack _ _))
  | _ => exact h.keep rfl

theorem Edits.gathers (e : Edits suite L k v v') (hread : ∀ id maxLen, k ≠ .reading id maxLen)
    (hm : v.Metered) (hears : ∀ p, k = .packet p → ∀ f ∈ p.frames, Copies w f)
    (h : v.Gathers w taken) : v'.Metered ∧ v'.Gathers w taken := by
  induction e with
  | refl => exact ⟨hm, h⟩
  | tail _ e ih => exact ⟨e.metered ih.1, e.gathers hread ih.1 hears ih.2⟩

end DartUdp.Core
