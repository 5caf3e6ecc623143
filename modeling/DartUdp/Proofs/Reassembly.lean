import DartUdp.Core.Streams
import DartUdp.Lib.Extents
import DartUdp.Lib.Runs

/-!
# A stream put together again

What arrives of a stream, in any order and any overlap, is kept in extents that
lie apart beyond the contiguous part. `uncovered_ranges` walks along them with a
cursor and finds what is missing between the bounds of one insertion; only that
is stored, so the byte that came first at an offset is the one that is read.
Whatever is refused is refused before anything is written.

The module is for `reassembles`. `uncoveredRanges_spec` is the walk,
`insertRanges_ends` and `deliverLoop_ends` are the loops after it,
`insertSegment_ends` is one call, and `Reassembly.Faithful.call` carries the
invariant through any calls.
-/

namespace DartUdp.Core

open DartUdp.Lib DartUdp.Udp

variable {r r' : ReceiveStream} {offset stop cursor i : Nat} {data taken : Bytes} {b : UInt8}
  {ranges : List (Nat × Nat)}

/-! ## What a stream has -/

/-- The offset was received before. -/
def ReceiveStream.covers (r : ReceiveStream) (i : Nat) : Bool :=
  i < r.nextOffset ||
    r.segments.toList.any fun entry => entry.1 ≤ i && i < entry.1 + entry.2.length

/-- How many of the offsets of an insertion were not received before. -/
def ReceiveStream.missing (r : ReceiveStream) (offset : Nat) (data : Bytes) : Nat :=
  ((Finset.Ico offset (offset + data.length)).filter fun i => !r.covers i).card

/-- The largest offset that may be received. -/
def ReceiveStream.limit (r : ReceiveStream) : Nat := min r.maxOffset u64Max

/-- The bytes received, read or not. -/
def ReceiveStream.received (r : ReceiveStream) : Nat :=
  r.nextOffset + mapSum r.segments List.length

/-- The segments lie apart, beyond the contiguous part and below the limit. -/
structure ReceiveStream.Sound (r : ReceiveStream) : Prop where
  contiguous : r.nextOffset ≤ r.limit
  segments : Apart (r.nextOffset + 1) r.limit r.segments

/-- The byte at an offset, where what was read before is given. -/
def ReceiveStream.Has (r : ReceiveStream) (taken : Bytes) (i : Nat) (b : UInt8) : Prop :=
  (taken ++ r.ready)[i]? = some b ∨ Holds r.segments i b

theorem covers_iff : r.covers i = true ↔ i < r.nextOffset ∨ ∃ b, Holds r.segments i b := by
  unfold ReceiveStream.covers
  rw [Bool.or_eq_true, decide_eq_true_eq, List.any_eq_true]
  refine or_congr_right ⟨fun h => ?_, fun h => ?_⟩
  · obtain ⟨⟨start, data⟩, hmem, hin⟩ := h
    rw [Bool.and_eq_true, decide_eq_true_eq, decide_eq_true_eq] at hin
    obtain ⟨b, hat⟩ := getElem?_offset_of_lt hin
    exact ⟨b, start, data, Std.TreeMap.mem_toList_iff_getElem?_eq_some.1 hmem, hat⟩
  · obtain ⟨b, start, data, hs, hat⟩ := h
    refine ⟨(start, data), Std.TreeMap.mem_toList_iff_getElem?_eq_some.2 hs, ?_⟩
    rw [Bool.and_eq_true, decide_eq_true_eq, decide_eq_true_eq]
    exact getElem?_offset_lt hat

theorem received_le (h : r.Sound) : r.received ≤ r.limit := by
  have hcontiguous := h.contiguous
  cases hmap : r.segments.toList with
  | nil =>
      have hzero : mapSum r.segments List.length = 0 := by
        unfold mapSum
        rw [hmap]
        rfl
      rw [ReceiveStream.received, hzero]
      exact hcontiguous
  | cons entry rest =>
      have hmem : entry ∈ r.segments.toList := by
        rw [hmap]
        exact List.mem_cons_self
      have hget := Std.TreeMap.mem_toList_iff_getElem?_eq_some.1 hmem
      have habove := h.segments.above entry.1 entry.2 hget
      have hbelow := h.segments.below entry.1 entry.2 hget
      have hsum := h.segments.sum_le (by omega)
      rw [ReceiveStream.received]
      omega

/-! ## The walk along the segments -/

theorem uncovered_spec {l : List (Nat × Bytes)}
    (hpair : l.Pairwise fun x y => x.1 + x.2.length ≤ y.1)
    (hall : ∀ x ∈ l, x.1 < stop ∧ x.1 + x.2.length ≤ u64Max) :
    Ascending cursor stop (uncovered cursor stop l) ∧
      ∀ i, InRanges (uncovered cursor stop l) i ↔
        cursor ≤ i ∧ i < stop ∧ ∀ x ∈ l, ¬ (x.1 ≤ i ∧ i < x.1 + x.2.length) := by
  induction l generalizing cursor with
  | nil =>
      unfold uncovered
      split
      · next hlt =>
          refine ⟨Ascending.nil.cons le_rfl hlt le_rfl, fun i => ?_⟩
          rw [inRanges_cons]
          simp [inRanges_nil]
      · refine ⟨.nil, fun i => ?_⟩
        simp only [inRanges_nil, false_iff]
        omega
  | cons x l ih =>
      obtain ⟨start, data⟩ := x
      obtain ⟨hfirst, hpair⟩ := List.pairwise_cons.1 hpair
      obtain ⟨hstart, hend⟩ := hall _ List.mem_cons_self
      have hrest : ∀ x ∈ l, x.1 < stop ∧ x.1 + x.2.length ≤ u64Max :=
        fun x hx => hall x (List.mem_cons_of_mem _ hx)
      dsimp only at hfirst hstart hend
      simp only [uncovered, saturatingAdd_of_le hend, List.forall_mem_cons]
      split
      · next hle =>
          -- The segment ends before the cursor.
          obtain ⟨hasc, hin⟩ := ih hpair hrest
          refine ⟨hasc, fun i => ?_⟩
          rw [hin]
          refine and_congr_right fun hi => and_congr_right fun _ => (and_iff_right ?_).symm
          omega
      · next hlt =>
          have hcursor : max cursor (start + data.length) = start + data.length := by omega
          have hmin : min start stop = start := by omega
          rw [hcursor, hmin]
          -- The gap before the segment, and the ranges after it.
          have hgap : ∀ rest, Ascending (start + data.length) stop rest →
              Ascending cursor stop ((if start > cursor then [(cursor, start)] else []) ++ rest) ∧
                ∀ i, InRanges ((if start > cursor then [(cursor, start)] else []) ++ rest) i ↔
                  cursor ≤ i ∧ i < start ∨ InRanges rest i := by
            intro rest hasc
            split
            · next hgt =>
                have hasc' : Ascending start stop rest := hasc.mono (Nat.le_add_right _ _)
                refine ⟨?_, fun i => ?_⟩
                · rw [List.singleton_append]
                  exact hasc'.cons le_rfl hgt (by omega)
                · rw [List.singleton_append, inRanges_cons]
            · next hngt =>
                refine ⟨?_, fun i => ?_⟩
                · exact hasc.mono (by omega)
                · rw [List.nil_append]
                  refine ⟨.inr, fun h => h.resolve_left ?_⟩
                  omega
          split
          · next hge =>
              have hnone := hgap [] .nil
              rw [List.append_nil] at hnone
              refine ⟨hnone.1, fun i => ?_⟩
              rw [hnone.2, or_iff_left inRanges_nil]
              constructor
              · intro hi
                refine ⟨hi.1, by omega, by omega, fun x hx => ?_⟩
                have := hfirst x hx
                omega
              · intro hi
                have := hi.2.2.1
                omega
          · next hlt' =>
              obtain ⟨hasc, hin⟩ := @ih (start + data.length) hpair hrest
              have hmore := hgap _ hasc
              refine ⟨hmore.1, fun i => ?_⟩
              rw [hmore.2, hin]
              constructor
              · intro hi
                rcases hi with hi | hi
                · refine ⟨hi.1, by omega, by omega, fun x hx => ?_⟩
                  have := hfirst x hx
                  omega
                · exact ⟨by omega, hi.2.1, by omega, hi.2.2⟩
              · intro hi
                have hout := hi.2.2.1
                by_cases hbefore : i < start
                · exact .inl ⟨hi.1, hbefore⟩
                · exact .inr ⟨by omega, hi.2.1, hi.2.2.2⟩

/-- The ranges `insert` stores are the offsets it brings for the first time. -/
theorem uncoveredRanges_spec (h : r.Sound) :
    Ascending (max offset r.nextOffset) stop (r.uncoveredRanges offset stop) ∧
      ∀ i, InRanges (r.uncoveredRanges offset stop) i ↔
        (offset ≤ i ∧ i < stop) ∧ r.covers i = false := by
  unfold ReceiveStream.uncoveredRanges
  split
  · next heq =>
      refine ⟨.nil, fun i => ?_⟩
      simp only [inRanges_nil, false_iff]
      omega
  · have hmem : ∀ x ∈ r.segments.toList.filter (·.1 < stop),
        x ∈ r.segments.toList ∧ x.1 < stop := fun x hx => by
      obtain ⟨hx, hlt⟩ := List.mem_filter.1 hx
      exact ⟨hx, of_decide_eq_true hlt⟩
    have hall : ∀ x ∈ r.segments.toList.filter (·.1 < stop),
        x.1 < stop ∧ x.1 + x.2.length ≤ u64Max := fun x hx => by
      obtain ⟨hx, hlt⟩ := hmem x hx
      have hbelow := h.segments.below x.1 x.2 (Std.TreeMap.mem_toList_iff_getElem?_eq_some.1 hx)
      exact ⟨hlt, hbelow.trans (Nat.min_le_right _ _)⟩
    obtain ⟨hasc, hin⟩ := @uncovered_spec stop (max offset r.nextOffset) _
      (h.segments.pairwise.filter _) hall
    refine ⟨hasc, fun i => ?_⟩
    rw [hin, Bool.eq_false_iff, Ne, covers_iff, not_or, not_exists]
    constructor
    · intro hi
      refine ⟨⟨by omega, hi.2.1⟩, by omega, fun b hb => ?_⟩
      obtain ⟨start, data, hs, hat⟩ := hb
      have hlt := getElem?_offset_lt hat
      refine hi.2.2 (start, data) (List.mem_filter.2 ⟨?_, ?_⟩) hlt
      · exact Std.TreeMap.mem_toList_iff_getElem?_eq_some.2 hs
      · have := hi.2.1
        exact decide_eq_true (by omega)
    · intro hi
      refine ⟨by omega, hi.1.2, fun x hx hat => ?_⟩
      obtain ⟨b, hb⟩ := getElem?_offset_of_lt hat
      exact hi.2.2 b ⟨x.1, x.2, Std.TreeMap.mem_toList_iff_getElem?_eq_some.1 (hmem x hx).1, hb⟩

/-- What `new_bytes` adds up is what is missing. -/
theorem sum_uncoveredRanges (h : r.Sound) :
    ((r.uncoveredRanges offset (offset + data.length)).map fun range => range.2 - range.1).sum =
      r.missing offset data := by
  obtain ⟨hasc, hin⟩ := @uncoveredRanges_spec r offset (offset + data.length) h
  refine (hasc.card fun i => ?_).symm
  rw [Finset.mem_filter, Finset.mem_Ico, hin, Bool.not_eq_true']

/-! ## Storing what is missing -/

/-- The part of the data that belongs between two offsets. -/
theorem getElem?_chunk {start stop : Nat} (hle : offset ≤ start) :
    (start ≤ i ∧ ((data.take (stop - offset)).drop (start - offset))[i - start]? = some b) ↔
      (start ≤ i ∧ i < stop) ∧ data[i - offset]? = some b := by
  rw [List.getElem?_drop, List.getElem?_take, and_assoc]
  refine and_congr_right fun hi => ?_
  have hindex : start - offset + (i - start) = i - offset := by omega
  rw [hindex]
  split
  · next hlt =>
      rw [and_iff_right]
      omega
  · next hge =>
      refine ⟨nofun, fun h => ?_⟩
      have := h.1
      omega

/-- The ranges are stored, each with what the data has there. -/
theorem insertRanges_ends {low : Nat} (hapart : Apart r.nextOffset r.limit r.segments)
    (hasc : Ascending low (offset + data.length) ranges) (hlow : max offset r.nextOffset ≤ low)
    (hlimit : offset + data.length ≤ r.limit)
    (hfree : ∀ i, InRanges ranges i → ∀ b, ¬ Holds r.segments i b) :
    Ends (insertRanges offset data ranges) r
      (fun n r' => n = (ranges.map fun range => range.2 - range.1).sum ∧
        ∃ segments, r' = { r with segments := segments } ∧ Apart r.nextOffset r.limit segments ∧
          mapSum segments List.length = mapSum r.segments List.length + n ∧
          ∀ i b, Holds segments i b ↔
            Holds r.segments i b ∨ InRanges ranges i ∧ data[i - offset]? = some b)
      fun _ _ => False := by
  induction ranges generalizing r low with
  | nil =>
      refine ⟨rfl, r.segments, rfl, hapart, rfl, fun i b => ?_⟩
      simp [inRanges_nil]
  | cons range rest ih =>
      obtain ⟨start, stop⟩ := range
      obtain ⟨hstart, hlt, hstop⟩ := hasc.within _ List.mem_cons_self
      dsimp only at hstart hlt hstop
      have hle : offset ≤ start := by omega
      let chunk := (data.take (stop - offset)).drop (start - offset)
      have hlen : chunk.length = stop - start := by
        simp only [chunk, List.length_drop, List.length_take]
        omega
      have hfirst : ∀ i, start ≤ i → i < start + chunk.length → ∀ b, ¬ Holds r.segments i b :=
        fun i hi hi' => hfree i (inRanges_cons.2 (.inl ⟨hi, by omega⟩))
      have hnone : r.segments[start]? = none := hapart.free (hfirst start le_rfl (by omega))
      have hne : chunk ≠ [] := List.length_pos_iff.1 (by omega)
      have hapart' : Apart _ _ (r.segments.insert start chunk) :=
        hapart.insert hne (by omega) (by omega) hfirst
      have hholds : ∀ i b, Holds (r.segments.insert start chunk) i b ↔
          Holds r.segments i b ∨ (start ≤ i ∧ i < stop) ∧ data[i - offset]? = some b :=
        fun i b => (holds_insert hnone).trans (or_congr_right (getElem?_chunk hle))
      have hsum := mapSum_insert_of_none chunk List.length hnone
      have hbound := hasc.tail.sum_le hstop
      have hmax : r.limit ≤ u64Max := Nat.min_le_right _ _
      have hnext : r.nextOffset ≤ stop := by omega
      simp only [insertRanges, ends_steps]
      refine ⟨fun hgt => by omega, fun _ => ?_⟩
      refine (ih (r := { r with segments := r.segments.insert start chunk }) hapart' hasc.tail
        (show max offset r.nextOffset ≤ stop by omega) hlimit fun i hi b hb => ?_).mono
        (fun n r' h => ?_) fun _ _ h => h
      · rcases (hholds i b).1 hb with hb | hb
        · exact hfree i (inRanges_cons.2 (.inr hi)) b hb
        · obtain ⟨range, hmem, hin⟩ := hi
          have := (hasc.tail.within range hmem).1
          omega
      · obtain ⟨rfl, segments, rfl, hsegments, htotal, hin⟩ := h
        refine ⟨?_, segments, rfl, hsegments, ?_, fun i b => ?_⟩
        · rw [List.map_cons, List.sum_cons]
          show saturatingAdd chunk.length _ = _
          rw [saturatingAdd_of_le (by omega), hlen]
        · show _ = _ + saturatingAdd chunk.length _
          rw [saturatingAdd_of_le (by omega), htotal, hsum]
          omega
        · rw [hin, hholds, inRanges_cons, or_assoc, ← or_and_right]

/-! ## Delivering what is contiguous -/

/-- What delivery does: bytes move to `ready`, and none is lost or changed. -/
structure ReceiveStream.Delivers (r r' : ReceiveStream) : Prop where
  sound : r'.Sound
  streamId : r'.streamId = r.streamId
  maxOffset : r'.maxOffset = r.maxOffset
  finalOffset : r'.finalOffset = r.finalOffset
  received : r'.received = r.received
  ready : r'.nextOffset + r.ready.length = r.nextOffset + r'.ready.length
  bytes : ∀ taken, (taken ++ r.ready).length = r.nextOffset →
    ∀ i b, r'.Has taken i b ↔ r.Has taken i b

/-- The entries of two lists one after the other. -/
theorem getElem?_append_iff {xs ys : Bytes} {n : Nat} (hn : xs.length = n) :
    (xs ++ ys)[i]? = some b ↔ xs[i]? = some b ∨ n ≤ i ∧ ys[i - n]? = some b := by
  rw [List.getElem?_append, hn]
  split
  · next hlt =>
      refine ⟨.inl, fun h => h.resolve_right fun hat => ?_⟩
      have := hat.1
      omega
  · next hge =>
      have hnone : xs[i]? = none := List.getElem?_eq_none (by omega)
      rw [hnone]
      simp only [reduceCtorEq, false_or]
      exact (and_iff_right (by omega)).symm

theorem deliverLoop_ends {fuel : Nat} (hfuel : r.segments.size ≤ fuel)
    (hcontiguous : r.nextOffset ≤ r.limit) (hapart : Apart r.nextOffset r.limit r.segments) :
    Ends (deliverLoop fuel) r (fun _ r' => r.Delivers r') fun _ _ => False := by
  induction fuel generalizing r with
  | zero =>
      have hnone : r.segments[r.nextOffset]? = none := by
        refine Std.TreeMap.getElem?_of_isEmpty ?_
        rw [Std.TreeMap.isEmpty_eq_size_eq_zero, beq_iff_eq]
        omega
      exact ⟨⟨hcontiguous, hapart.succ hnone⟩, rfl, rfl, rfl, rfl, rfl, fun _ _ _ _ => Iff.rfl⟩
  | succ fuel ih =>
      simp only [deliverLoop, ends_bind, ends_get]
      cases hs : r.segments[r.nextOffset]? with
      | none =>
          exact ⟨⟨hcontiguous, hapart.succ hs⟩, rfl, rfl, rfl, rfl, rfl, fun _ _ _ _ => Iff.rfl⟩
      | some data =>
          have hbelow := hapart.below _ _ hs
          have hmax : r.limit ≤ u64Max := Nat.min_le_right _ _
          have hadd : checkedAdd r.nextOffset data.length = some (r.nextOffset + data.length) :=
            checkedAdd_eq_some.2 ⟨hbelow.trans hmax, rfl⟩
          have hmem : r.segments.contains r.nextOffset = true := by
            rw [Std.TreeMap.contains_eq_isSome_getElem?, hs]
            rfl
          have hsize : (r.segments.erase r.nextOffset).size ≤ fuel := by
            rw [Std.TreeMap.size_erase, if_pos hmem]
            omega
          have hsum := mapSum_erase List.length hs
          simp only [ends_bind, ends_modify, hadd]
          refine (ih (r := { r with
            segments := r.segments.erase r.nextOffset
            nextOffset := r.nextOffset + data.length
            ready := r.ready ++ data }) hsize hbelow (hapart.erase hs)).mono (fun _ r' h => ?_)
            fun _ _ h => h
          refine ⟨h.sound, h.streamId, h.maxOffset, h.finalOffset, h.received.trans ?_, ?_,
            fun taken hlen i b => ?_⟩
          · show r.nextOffset + data.length + mapSum (r.segments.erase r.nextOffset) _ =
              r.nextOffset + mapSum r.segments _
            omega
          · have hready := h.ready
            rw [List.length_append] at hready
            dsimp only at hready
            omega
          · have hlen' : (taken ++ (r.ready ++ data)).length = r.nextOffset + data.length := by
              rw [← List.append_assoc, List.length_append, hlen]
            rw [h.bytes taken hlen']
            unfold ReceiveStream.Has
            dsimp only
            rw [← List.append_assoc, getElem?_append_iff hlen, holds_erase hs]
            tauto

/-! ## Inserting -/

/-- What an insertion that is accepted does: what was missing is there now, and
nothing else changed. -/
structure ReceiveStream.Inserts (r : ReceiveStream) (offset : Nat) (data : Bytes) (n : Nat)
    (r' : ReceiveStream) : Prop where
  sound : r'.Sound
  streamId : r'.streamId = r.streamId
  maxOffset : r'.maxOffset = r.maxOffset
  limit : offset + data.length ≤ r.limit
  missing : n = r.missing offset data
  newBytes : r.newBytes offset data = .ok n
  received : r'.received = r.received + n
  ready : r'.nextOffset + r.ready.length = r.nextOffset + r'.ready.length
  bytes : ∀ taken, (taken ++ r.ready).length = r.nextOffset → ∀ i b,
    r'.Has taken i b ↔
      r.Has taken i b ∨ r.covers i = false ∧ offset ≤ i ∧ data[i - offset]? = some b

theorem newBytes_eq (h : r.Sound) (hlimit : offset + data.length ≤ r.limit) :
    r.newBytes offset data = .ok (r.missing offset data) := by
  have hmax : r.limit ≤ r.maxOffset := Nat.min_le_left _ _
  have hadd : checkedAdd offset data.length = some (offset + data.length) :=
    checkedAdd_eq_some.2 ⟨hlimit.trans (Nat.min_le_right _ _), rfl⟩
  unfold ReceiveStream.newBytes
  rw [hadd]
  dsimp only
  rw [if_neg (by omega), sum_uncoveredRanges h]

/-- An insertion is refused before anything is written, or brings in all that was
missing of it. -/
theorem insertSegment_ends {fin : Bool} (h : r.Sound) :
    Ends (insertSegment offset data fin) r
      (fun n r' => r.Inserts offset data n r' ∧
        r.checkFinal (offset + data.length) fin = .ok r'.finalOffset)
      fun _ r' => r' = r ∧ (r.limit < offset + data.length ∨
        ∀ final, r.checkFinal (offset + data.length) fin ≠ .ok final) := by
  simp only [insertSegment, ends_bind, ends_get]
  cases hadd : checkedAdd offset data.length with
  | none =>
      have hnot := mt (fun hle => checkedAdd_eq_some.2 ⟨hle, rfl⟩)
        (by rw [hadd]; exact fun h => by cases h)
      refine ⟨rfl, .inl ((Nat.min_le_right _ _).trans_lt (Nat.lt_of_not_le hnot))⟩
  | some stop =>
      obtain ⟨hmax, rfl⟩ := checkedAdd_eq_some.1 hadd
      simp only [ends_steps, ends_ofExcept, deliverContiguous]
      refine ⟨fun hgt => ⟨trivial, .inl ((Nat.min_le_left _ _).trans_lt hgt)⟩,
        fun hle => ⟨fun final hfinal => ?_, fun e he => ⟨trivial, .inr fun final => ?_⟩⟩⟩
      on_goal 2 =>
        rw [he]
        exact fun h => by cases h
      have hlimit : offset + data.length ≤ r.limit := le_min (Nat.le_of_not_lt hle) hmax
      obtain ⟨hasc, hin⟩ := @uncoveredRanges_spec r offset (offset + data.length) h
      have hfree : ∀ i, InRanges (r.uncoveredRanges offset (offset + data.length)) i →
          ∀ b, ¬ Holds r.segments i b := fun i hi b hb => by
        have hcovers := ((hin i).1 hi).2
        rw [covers_iff.2 (.inr ⟨b, hb⟩)] at hcovers
        cases hcovers
      have hapart : Apart r.nextOffset r.limit r.segments :=
        ⟨h.segments.nonempty, fun s d hs => Nat.le_of_succ_le (h.segments.above s d hs),
          h.segments.below, h.segments.disjoint⟩
      refine (insertRanges_ends (r := { r with finalOffset := final }) hapart hasc le_rfl hlimit
        hfree).mono (fun n r₁ h₁ => ?_) fun _ _ h₁ => h₁.elim
      obtain ⟨rfl, segments, rfl, hsegments, hsum, hholds⟩ := h₁
      refine (deliverLoop_ends (r := { r with finalOffset := final, segments := segments }) le_rfl
        h.contiguous hsegments).mono (fun _ r' h' => ?_)
        fun _ _ h' => h'.elim
      rw [sum_uncoveredRanges h] at hsum ⊢
      refine ⟨⟨h'.sound, h'.streamId, h'.maxOffset, hlimit, rfl, newBytes_eq h hlimit, ?_,
        h'.ready, fun taken hlen i b => ?_⟩, hfinal.trans (congrArg _ h'.finalOffset.symm)⟩
      · rw [h'.received]
        show r.nextOffset + mapSum segments List.length = r.nextOffset + _ + _
        rw [hsum, Nat.add_assoc]
      · rw [h'.bytes taken hlen]
        unfold ReceiveStream.Has
        dsimp only
        rw [hholds, hin, or_assoc]
        refine or_congr_right (or_congr_right ⟨fun hb => ?_, fun hb => ?_⟩)
        · exact ⟨hb.1.2, hb.1.1.1, hb.2⟩
        · exact ⟨⟨getElem?_offset_lt hb.2, hb.1⟩, hb.2.2⟩

/-- The final offset that is left, and where the data ends. -/
theorem checkFinal_ok {fin : Bool} {final : Option Nat} (h : r.checkFinal stop fin = .ok final) :
    final = (if fin then some stop else r.finalOffset) ∧
      ∀ f, r.finalOffset = some f → final = some f ∧ stop ≤ f := by
  unfold ReceiveStream.checkFinal at h
  cases hf : r.finalOffset with
  | none =>
      rw [hf] at h
      cases h
      exact ⟨rfl, nofun⟩
  | some f =>
      rw [hf] at h
      dsimp only at h
      cases fin with
      | true =>
          simp only [if_true] at h
          split at h
          · cases h
          · next heq =>
              cases h
              obtain rfl : f = stop := not_not.1 heq
              refine ⟨rfl, fun g hg => ?_⟩
              cases hg
              exact ⟨rfl, le_rfl⟩
      | false =>
          simp only [Bool.false_eq_true, if_false] at h
          split at h
          · cases h
          · next hle =>
              cases h
              refine ⟨rfl, fun g hg => ?_⟩
              cases hg
              exact ⟨rfl, Nat.le_of_not_lt hle⟩

theorem bufferedLen_eq (r : ReceiveStream) :
    r.bufferedLen = r.ready.length + mapSum r.segments List.length := rfl

theorem ReceiveStream.Inserts.buffered {n : Nat} (h : r.Inserts offset data n r') :
    r'.bufferedLen = r.bufferedLen + n := by
  have hreceived := h.received
  have hready := h.ready
  unfold ReceiveStream.received at hreceived
  rw [bufferedLen_eq, bufferedLen_eq]
  omega

/-! ## Calls, one after another -/

inductive ReceiveCall where
  | insert (offset : Nat) (data : Bytes) (fin : Bool)
  | read (maxLen : Nat)
deriving DecidableEq

/-- A stream, the bytes that were read off it, and the insertions it accepted. -/
structure Reassembly where
  stream : ReceiveStream
  taken : Bytes := []
  accepted : List (Nat × Bytes) := []

/-- `ReceiveStream::new`. -/
def ReceiveStream.new (streamId maxOffset : Nat) : ReceiveStream :=
  { streamId := streamId, maxOffset := maxOffset }

def Reassembly.call (a : Reassembly) : ReceiveCall → Reassembly
  | .insert offset data fin =>
      match insertSegment offset data fin a.stream with
      | .ok _ stream => { a with stream := stream, accepted := a.accepted ++ [(offset, data)] }
      | .error _ stream => { a with stream := stream }
  | .read maxLen =>
      { a with
        stream := (a.stream.read maxLen).2
        taken := a.taken ++ (a.stream.read maxLen).1 }

/-- The byte of the first insertion that has one at the offset. -/
def firstByte (accepted : List (Nat × Bytes)) (i : Nat) : Option UInt8 :=
  accepted.findSome? fun entry => if entry.1 ≤ i then entry.2[i - entry.1]? else none

/-- What was read and what is stored is what came first. -/
structure Reassembly.Faithful (a : Reassembly) : Prop where
  sound : a.stream.Sound
  length : (a.taken ++ a.stream.ready).length = a.stream.nextOffset
  bytes : ∀ i b, a.stream.Has a.taken i b ↔ firstByte a.accepted i = some b

variable {a : Reassembly}

theorem firstByte_concat {accepted : List (Nat × Bytes)} :
    firstByte (accepted ++ [(offset, data)]) i = some b ↔
      firstByte accepted i = some b ∨
        firstByte accepted i = none ∧ offset ≤ i ∧ data[i - offset]? = some b := by
  have hlast : firstByte [(offset, data)] i = some b ↔
      offset ≤ i ∧ data[i - offset]? = some b := by
    unfold firstByte
    rw [List.findSome?_singleton]
    dsimp only
    split
    · next hle => rw [and_iff_right hle]
    · next hgt => simp [hgt]
  unfold firstByte at hlast ⊢
  rw [List.findSome?_append, ← hlast]
  cases List.findSome? _ accepted <;> simp

theorem covers_iff_has (hlen : (taken ++ r.ready).length = r.nextOffset) :
    r.covers i = true ↔ ∃ b, r.Has taken i b := by
  unfold ReceiveStream.Has
  rw [covers_iff, exists_or, ← hlen]
  refine or_congr_left ⟨fun h => ⟨_, List.getElem?_eq_getElem h⟩, fun h => ?_⟩
  obtain ⟨b, hb⟩ := h
  exact (List.getElem?_eq_some_iff.1 hb).1

/-- An insertion keeps the bytes read and stored in place. -/
theorem ReceiveStream.Inserts.length {n : Nat} (h : r.Inserts offset data n r')
    (hlen : (taken ++ r.ready).length = r.nextOffset) :
    (taken ++ r'.ready).length = r'.nextOffset := by
  have hready := h.ready
  rw [List.length_append] at hlen ⊢
  omega

/-- The offsets there are after an insertion. -/
theorem ReceiveStream.Inserts.covers {n : Nat} (h : r.Inserts offset data n r')
    (hlen : (taken ++ r.ready).length = r.nextOffset) :
    r'.covers i = true ↔ r.covers i = true ∨ offset ≤ i ∧ i < offset + data.length := by
  rw [covers_iff_has (h.length hlen), covers_iff_has hlen]
  constructor
  · intro hex
    obtain ⟨b, hb⟩ := hex
    rcases (h.bytes taken hlen i b).1 hb with hb | ⟨_, hat⟩
    · exact .inl ⟨b, hb⟩
    · exact .inr (getElem?_offset_lt hat)
  · intro hor
    rcases hor with ⟨b, hb⟩ | hin
    · exact ⟨b, (h.bytes taken hlen i b).2 (.inl hb)⟩
    · obtain ⟨b, hat⟩ := getElem?_offset_of_lt hin
      cases hcovers : r.covers i with
      | true =>
          obtain ⟨b', hb'⟩ := (covers_iff_has hlen).1 hcovers
          exact ⟨b', (h.bytes taken hlen i b').2 (.inl hb')⟩
      | false => exact ⟨b, (h.bytes taken hlen i b).2 (.inr ⟨hcovers, hat⟩)⟩

theorem Reassembly.Faithful.insert {n : Nat} (h : a.Faithful)
    (hi : a.stream.Inserts offset data n r') : Reassembly.Faithful
      { a with stream := r', accepted := a.accepted ++ [(offset, data)] } := by
  refine ⟨hi.sound, hi.length h.length, fun i b => ?_⟩
  rw [hi.bytes a.taken h.length, h.bytes, firstByte_concat]
  refine or_congr_right (and_congr_left fun _ => ?_)
  rw [Bool.eq_false_iff, Ne, covers_iff_has h.length, not_exists, Option.eq_none_iff_forall_ne_some]
  exact forall_congr' fun b => not_congr (h.bytes i b)

theorem Reassembly.Faithful.read (h : a.Faithful) (maxLen : Nat) :
    (a.call (.read maxLen)).Faithful := by
  have hsame : a.taken ++ a.stream.ready.take maxLen ++ a.stream.ready.drop maxLen =
      a.taken ++ a.stream.ready := by
    rw [List.append_assoc, List.take_append_drop]
  refine ⟨⟨h.sound.contiguous, h.sound.segments⟩, ?_, fun i b => ?_⟩
  · exact (congrArg List.length hsame).trans h.length
  · refine Iff.trans ?_ (h.bytes i b)
    exact or_congr_left (iff_of_eq (congrArg (fun bytes : Bytes => bytes[i]? = some b) hsame))

/-- Every call keeps to what came first. -/
theorem Reassembly.Faithful.call (h : a.Faithful) (c : ReceiveCall) : (a.call c).Faithful := by
  cases c with
  | read maxLen => exact h.read maxLen
  | insert offset data fin =>
      have hends := @insertSegment_ends a.stream offset data fin h.sound
      unfold Reassembly.call
      dsimp only
      split
      · next n r' hrun => exact h.insert (hends.ok hrun).1
      · next e r' hrun =>
          rw [(hends.error hrun).1]
          exact h

theorem faithful_new (streamId maxOffset : Nat) :
    Reassembly.Faithful ⟨.new streamId maxOffset, [], []⟩ := by
  refine ⟨⟨Nat.zero_le _, .empty⟩, rfl, fun i b => ?_⟩
  refine ⟨fun h => ?_, nofun⟩
  rcases h with h | h
  · cases h
  · exact absurd h holds_empty

/-- After any calls, what was read and is ready is what came first at each offset
below the next one, the segments lie apart, and the next insertion answers how
many offsets it brings, or changes nothing. -/
theorem reassembles (streamId maxOffset : Nat) (calls : List ReceiveCall) :
    let a := calls.foldl Reassembly.call ⟨.new streamId maxOffset, [], []⟩
    (a.taken ++ a.stream.ready).length = a.stream.nextOffset ∧
      (∀ i, i < a.stream.nextOffset →
        (a.taken ++ a.stream.ready)[i]? = firstByte a.accepted i) ∧
      Apart (a.stream.nextOffset + 1) a.stream.maxOffset a.stream.segments ∧
      ∀ offset data fin, Ends (insertSegment offset data fin) a.stream
        (fun n r => n = a.stream.missing offset data ∧ a.stream.newBytes offset data = .ok n ∧
          ∀ i, r.covers i = true ↔
            a.stream.covers i = true ∨ offset ≤ i ∧ i < offset + data.length)
        fun _ r => r = a.stream := by
  intro a
  have ha : a.Faithful := run_keeps calls (faithful_new streamId maxOffset) fun a c h =>
    h.call c
  refine ⟨ha.length, fun i hi => ?_, ha.sound.segments.mono (Nat.min_le_left _ _),
    fun offset data fin => ?_⟩
  · rw [← ha.length] at hi
    have hget := List.getElem?_eq_getElem hi
    rw [hget]
    exact ((ha.bytes i _).1 (.inl hget)).symm
  · exact (insertSegment_ends ha.sound).mono
      (fun n r h => ⟨h.1.missing, h.1.newBytes, fun i => h.1.covers ha.length⟩)
      fun _ r h => h.1

end DartUdp.Core
