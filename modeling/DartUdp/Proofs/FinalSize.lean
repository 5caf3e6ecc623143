import DartUdp.Proofs.Reassembly

/-!
# The final size of a stream

A frame with FIN says where the stream ends. `insert` compares it with a FIN that
came before, and data that comes later with the FIN, but it does not compare the
first FIN with the data that is there already. So a stream keeps to its final
size as long as the first FIN does not end below what was received before it.

The module is for `final_size_iff`. `insert_keepsSize_iff` is one call, and
`keepsSize_iff` the sequence, in which `EndsBy` says what has been fixed so far.
-/

namespace DartUdp.Core

open DartUdp.Lib DartUdp.Udp

variable {r r' : ReceiveStream} {offset stop i : Nat} {data : Bytes} {a : Reassembly}

/-- Nothing was received at the offset or beyond it. -/
def ReceiveStream.EndsBy (r : ReceiveStream) (stop : Nat) : Prop :=
  r.nextOffset ≤ stop ∧
    ∀ (start : Nat) (data : Bytes), r.segments[start]? = some data → start + data.length ≤ stop

/-- Once the final offset is known, nothing lies beyond it. -/
def ReceiveStream.Fits (r : ReceiveStream) : Prop := ∀ f, r.finalOffset = some f → r.EndsBy f

/-- The insertion has a FIN below what was received, or data beyond a FIN. -/
def ReceiveStream.Contradicts (r : ReceiveStream) : ReceiveCall → Prop
  | .insert offset data fin =>
      fin = true ∧ ¬ r.EndsBy (offset + data.length) ∨
        ∃ f, r.finalOffset = some f ∧ f < offset + data.length
  | .read _ => False

/-- The stream fits its final size after the call, and a call that contradicts it
is refused. -/
def KeepsSize (a : Reassembly) (c : ReceiveCall) : Prop :=
  (a.call c).stream.Fits ∧ (a.stream.Contradicts c → (a.call c) = a)

/-- A first FIN within the limit does not end below what was received. -/
def FirstFinFits (a : Reassembly) : ReceiveCall → Prop
  | .insert offset data fin =>
      fin = true → a.stream.finalOffset = none → offset + data.length ≤ a.stream.limit →
        a.stream.EndsBy (offset + data.length)
  | .read _ => True

theorem endsBy_iff (h : r.Sound) : r.EndsBy stop ↔ ∀ i, r.covers i = true → i < stop := by
  constructor
  · intro hends i hi
    rcases covers_iff.1 hi with hlt | ⟨b, start, data, hs, hat⟩
    · have := hends.1
      omega
    · have hbelow := hends.2 start data hs
      have hlt := getElem?_offset_lt hat
      omega
  · intro hall
    refine ⟨Nat.le_of_not_lt fun hlt => ?_, fun start data hs => ?_⟩
    · exact Nat.lt_irrefl stop (hall stop (covers_iff.2 (.inl hlt)))
    · have hpos := List.length_pos_iff.2 (h.segments.nonempty start data hs)
      have hlast : start ≤ start + data.length - 1 ∧
          start + data.length - 1 < start + data.length := by omega
      obtain ⟨b, hat⟩ := getElem?_offset_of_lt hlast
      have := hall _ (covers_iff.2 (.inr ⟨b, start, data, hs, hat⟩))
      omega

/-- What an insertion brings ends where its data does. -/
theorem endsBy_insert {n : Nat} (ha : a.Faithful) (h : a.stream.Inserts offset data n r')
    (hle : offset + data.length ≤ stop) : r'.EndsBy stop ↔ a.stream.EndsBy stop := by
  rw [endsBy_iff h.sound, endsBy_iff ha.sound]
  refine forall_congr' fun i => ?_
  rw [h.covers ha.length]
  constructor
  · intro hlt hi
    exact hlt (.inl hi)
  · intro hlt hi
    rcases hi with hi | hi
    · exact hlt hi
    · omega

/-- An insertion keeps the size exactly when it is no first FIN below what was
received. -/
theorem insert_keepsSize_iff {fin : Bool} (ha : a.Faithful) (hfits : a.stream.Fits) :
    KeepsSize a (.insert offset data fin) ↔ FirstFinFits a (.insert offset data fin) := by
  have hends := @insertSegment_ends a.stream offset data fin ha.sound
  unfold KeepsSize FirstFinFits Reassembly.call
  dsimp only
  split
  · next n r' hrun =>
      obtain ⟨hinserts, hfinal⟩ := hends.ok hrun
      obtain ⟨hleft, hknown⟩ := checkFinal_ok hfinal
      have haccepted : a.accepted ++ [(offset, data)] ≠ a.accepted := by simp
      cases hf : a.stream.finalOffset with
      | some f =>
          obtain ⟨hsome, hle⟩ := hknown f hf
          refine ⟨fun _ _ => nofun, fun _ => ⟨fun g hg => ?_, fun hcon => ?_⟩⟩
          · cases hsome.symm.trans hg
            exact (endsBy_insert ha hinserts hle).2 (hfits f hf)
          · -- The FIN that is there already is where this one ends.
            refine absurd hcon fun hcon => ?_
            rcases hcon with ⟨rfl, hnot⟩ | ⟨g, hg, hlt⟩
            · rw [hsome, if_pos rfl] at hleft
              cases hleft
              exact hnot (hfits _ hf)
            · cases hf.symm.trans hg
              omega
      | none =>
          rw [hf] at hleft
          constructor
          · intro h hfin _ _
            by_contra hnot
            have heq := h.2 (.inl ⟨hfin, hnot⟩)
            exact haccepted (congrArg Reassembly.accepted heq)
          · intro h
            refine ⟨fun f hf' => ?_, fun hcon => ?_⟩
            · rw [hleft] at hf'
              split at hf'
              · next hfin =>
                  cases hf'
                  exact (endsBy_insert ha hinserts le_rfl).2 (h hfin rfl hinserts.limit)
              · cases hf'
            · refine absurd hcon fun hcon => ?_
              rcases hcon with ⟨hfin, hnot⟩ | ⟨g, hg, _⟩
              · exact hnot (h hfin rfl hinserts.limit)
              · cases hf.symm.trans hg
  · next e r' hrun =>
      obtain ⟨rfl, hwhy⟩ := hends.error hrun
      refine ⟨fun _ hfin hnone hle => ?_, fun _ => ⟨hfits, fun _ => rfl⟩⟩
      rcases hwhy with hgt | hcheck
      · omega
      · refine absurd ?_ (hcheck (if fin then some (offset + data.length) else none))
        unfold ReceiveStream.checkFinal
        rw [hnone]

theorem keepsSize_iff (c : ReceiveCall) (ha : a.Faithful) (hfits : a.stream.Fits) :
    KeepsSize a c ↔ FirstFinFits a c := by
  cases c with
  | insert offset data fin => exact insert_keepsSize_iff ha hfits
  | read maxLen => exact ⟨fun _ => trivial, fun _ => ⟨hfits, False.elim⟩⟩

/-- Over any calls, a stream fits its final size throughout, and refuses what
contradicts it, exactly when its first FIN does not end below what was received
before. -/
theorem final_size_iff (streamId maxOffset : Nat) (calls : List ReceiveCall) :
    Meets Reassembly.call KeepsSize ⟨.new streamId maxOffset, [], []⟩ calls ↔
      Meets Reassembly.call FirstFinFits ⟨.new streamId maxOffset, [], []⟩ calls :=
  meets_congr (I := fun a => a.Faithful ∧ a.stream.Fits) calls
    ⟨faithful_new streamId maxOffset, nofun⟩ (fun _ c h => keepsSize_iff c h.1 h.2)
    fun _ c h hkeeps => ⟨h.1.call c, hkeeps.1⟩

/-- A byte at offset 5, then one at offset 0 with FIN: the stream ends at 1, and
the byte at 5 is still there. -/
theorem early_fin_is_accepted :
    ¬ Meets Reassembly.call KeepsSize ⟨.new 0 100, [], []⟩
      [.insert 5 [120] false, .insert 0 [97] true] := by
  intro h
  have hfits := h.2.1.1 1 rfl
  have hsegment := hfits.2 5 [120] (by decide)
  exact absurd hsegment (by decide)

end DartUdp.Core
